import QuickJSBridge.Java.ModuleNames

/-!
# ES modules

`ES6Module.executeModuleScript` hands a script to `JS_Eval`, which loads what it imports, links and evaluates.
The names of imports go through `convertModuleName` of the Java class, the scripts come from its
`getModuleScript`.

* `Script`, `ModuleDef`, `Context` — what a script declares, and the modules of a context. A module whose memory
  was freed is not in `loadedModules`; to read one is `none`, and so is to use a request that was not resolved;
* `resolveModule` — `js_resolve_module`, with `js_host_resolve_imported_module`, the loader of the bridge and the
  part of `__JS_EvalInternal` that makes a module;
* `resolveExport1`, `getExportedNames`, `getModuleNs` — which module has what is exported under a name;
* `createModuleFunction`, `linkModule`, `evaluateModule` — the passes over a module and what it requests;
* `executeModuleScript` — all of it, and what is freed when it fails.

The functions of C call themselves without a bound; here they have fuel. Modules written in C, `import()` and
what a script does beside its imports and exports are not modelled.
-/

namespace QuickJSBridge.Es6

/-- `JS_ATOM__star_` -/
def atomStar : Text := ModuleNames.text ['*']

/-- `JS_ATOM_default` -/
def atomDefault : Text := ModuleNames.text ['d', 'e', 'f', 'a', 'u', 'l', 't']

/-! ## Modules -/

/-- `JSExportTypeEnum`, with the index of the request for an indirect export -/
inductive ExportType where
  | local
  | indirect (reqModuleIdx : Nat)
  deriving DecidableEq

structure ExportEntry where
  exportName : Text
  -- `*` if the namespace of another module is exported
  localName : Text
  exportType : ExportType
  deriving DecidableEq

structure ImportEntry where
  importName : Text
  reqModuleIdx : Nat
  deriving DecidableEq

/-- What the parser finds in a module's script: it adds a request before the entries that refer to it. -/
structure Script where
  reqModuleEntries : List Text
  exportEntries : List ExportEntry
  starExportEntries : List Nat
  importEntries : List ImportEntry
  -- `add_export_entry2` refuses a second one
  export_nodup : (exportEntries.map (·.exportName)).Nodup
  -- an identifier, or `*default*`
  local_ne : ∀ me ∈ exportEntries, me.exportType = .local → me.localName ≠ atomStar
  export_lt : ∀ me ∈ exportEntries, ∀ i, me.exportType = .indirect i → i < reqModuleEntries.length
  star_lt : ∀ i ∈ starExportEntries, i < reqModuleEntries.length
  import_lt : ∀ mi ∈ importEntries, mi.reqModuleIdx < reqModuleEntries.length

/-- A script of imports without names, `import "m"`. -/
def Script.ofRequests (requests : List Text) : Script :=
  ⟨requests, [], [], [], List.nodup_nil, nofun, nofun, nofun, nofun⟩

def Script.empty : Script := .ofRequests []

/-- `JSModuleDef` -/
structure ModuleDef where
  moduleName : Text
  script : Script
  -- `module` of the request entries, as far as they are resolved
  modules : List Nat
  resolved : Bool
  funcCreated : Bool
  instantiated : Bool
  -- the names in `module_ns`, unless that is undefined
  moduleNs : Option (List Text)
  evalMark : Bool
  evaluated : Bool
  evalHasException : Bool

def ModuleDef.new (name : Text) (script : Script) : ModuleDef :=
  ⟨name, script, [], false, false, false, none, false, false, false⟩

/-- `rme->module` of all request entries: `none` is the null pointer. -/
def ModuleDef.requested (d : ModuleDef) : List (Option Nat) :=
  d.modules.map some ++ List.replicate (d.script.reqModuleEntries.length - d.modules.length) none

/-- `find_export_entry` -/
def ModuleDef.findExportEntry (d : ModuleDef) (exportName : Text) : Option ExportEntry :=
  d.script.exportEntries.find? fun me => me.exportName = exportName

structure Context where
  -- no module has been made here or above
  next : Nat
  defs : Nat → ModuleDef
  loadedModules : List Nat
  -- the names that the loader was called with
  asked : List Text
  -- the modules whose function was called
  ran : List Nat

namespace Context

def init : Context := ⟨0, fun _ => .new [] .empty, [], [], []⟩

def read (c : Context) (m : Nat) : Option ModuleDef := if m ∈ c.loadedModules then some (c.defs m) else none

def write (c : Context) (m : Nat) (d : ModuleDef) : Context := { c with defs := Function.update c.defs m d }

/-- `js_find_loaded_module` -/
def findLoadedModule (c : Context) (name : Text) : Option Nat :=
  c.loadedModules.find? fun m => (c.defs m).moduleName = name

/-- `js_new_module_def`; the module is `c.next`. -/
def newModuleDef (c : Context) (name : Text) (script : Script) : Context :=
  { c with
    next := c.next + 1
    defs := Function.update c.defs c.next (.new name script)
    loadedModules := c.loadedModules ++ [c.next] }

/-- `js_free_module_def` -/
def freeModuleDef (c : Context) (m : Nat) : Context := { c with loadedModules := c.loadedModules.erase m }

/-- `js_free_modules(ctx, JS_FREE_MODULE_NOT_EVALUATED)` -/
def freeModulesNotEvaluated (c : Context) : Context :=
  { c with loadedModules := c.loadedModules.filter fun m => (c.defs m).evaluated }

end Context

/-- The Java side: `convertModuleName`, and `getModuleScript` with what the parser makes of the script. A null, an
exception and a syntax error are `none`. -/
structure Host where
  convertModuleName : Text → Text → Option Text
  getModuleScript : Text → Option Script
  -- the function of the module throws
  throws : Nat → Bool

/-! ## Loading -/

/-- `js_host_resolve_imported_module` after the name is normalized. `resolve` is the recursive call. -/
def hostResolve (host : Host) (resolve : Nat → Context → Option (Bool × Context)) (c : Context) (cname : Text) :
    Option (Option Nat × Context) :=
  match c.findLoadedModule cname with
  | some m => some (some m, c)
  | none =>
    let c := { c with asked := c.asked ++ [cname] }
    match host.getModuleScript cname with
    | none => some (none, c)
    | some script => do
      let (ok, c') ← resolve c.next (c.newModuleDef cname script)
      if ok then some (some c.next, c') else some (none, c'.freeModuleDef c.next)

/-- The loop of `js_resolve_module` over the requests of `m`. -/
def resolveRequests (host : Host) (resolve : Nat → Context → Option (Bool × Context)) (m : Nat) (base : Text) :
    List Text → Context → Option (Bool × Context)
  | [], c => some (true, c)
  | name :: rest, c =>
    match host.convertModuleName base name with
    | none => some (false, c)
    | some cname => do
      let (m1, c) ← hostResolve host resolve c cname
      match m1 with
      | none => some (false, c)
      | some m1 =>
        let d ← c.read m
        let (ok, c) ← resolve m1 (c.write m { d with modules := d.modules ++ [m1] })
        if ok then resolveRequests host resolve m base rest c else some (false, c)

/-- `js_resolve_module`; `false` is -1. -/
def resolveModule (host : Host) : Nat → Nat → Context → Option (Bool × Context)
  | 0, _, _ => none
  | fuel + 1, m, c => do
    let d ← c.read m
    if d.resolved then some (true, c)
    else
      resolveRequests host (resolveModule host fuel) m d.moduleName d.script.reqModuleEntries
        (c.write m { d with resolved := true })

/-! ## Exports -/

/-- `JSResolveResultEnum`, with `*pmodule` and `*pme` -/
inductive ResolveResult where
  | found (m : Nat) (me : ExportEntry)
  | notFound
  | circular
  | ambiguous
  deriving DecidableEq

/-- The loop of `js_resolve_export1` over the star exports, `found` so far. -/
def resolveStars (resolve : List (Nat × Text) → Nat → Text → Option (ResolveResult × List (Nat × Text)))
    (d : ModuleDef) (exportName : Text) :
    List Nat → Option (Nat × ExportEntry) → List (Nat × Text) → Option (ResolveResult × List (Nat × Text))
  | [], none, s => some (.notFound, s)
  | [], some (m, me), s => some (.found m me, s)
  | i :: rest, found, s => do
    let m1 ← d.modules[i]?
    let (ret, s) ← resolve s m1 exportName
    match ret with
    | .ambiguous => some (.ambiguous, s)
    | .found resM resMe =>
      match found with
      | some (m, me) =>
        if m ≠ resM ∨ resMe.localName ≠ me.localName then some (.ambiguous, s)
        else resolveStars resolve d exportName rest found s
      | none => resolveStars resolve d exportName rest (some (resM, resMe)) s
    | _ => resolveStars resolve d exportName rest found s

/-- `js_resolve_export1`; `s` are the pairs that it has come to. -/
def resolveExport1 (c : Context) :
    Nat → List (Nat × Text) → Nat → Text → Option (ResolveResult × List (Nat × Text))
  | 0, _, _, _ => none
  | fuel + 1, s, m, exportName =>
    if (m, exportName) ∈ s then some (.circular, s)
    else do
      let s := s ++ [(m, exportName)]
      let d ← c.read m
      match d.findExportEntry exportName with
      | some me =>
        match me.exportType with
        | .local => some (.found m me, s)
        | .indirect i =>
          -- `export * as name from`
          if me.localName = atomStar then some (.found m me, s)
          else do
            let m1 ← d.modules[i]?
            resolveExport1 c fuel s m1 me.localName
      | none =>
        if exportName = atomDefault then some (.notFound, s)
        else resolveStars (resolveExport1 c fuel) d exportName d.script.starExportEntries none s

/-- `js_resolve_export` -/
def resolveExport (c : Context) (fuel m : Nat) (exportName : Text) : Option ResolveResult :=
  (resolveExport1 c fuel [] m exportName).map Prod.fst

/-- `ExportedNameEntry`: whether `u.me` is set -/
abbrev ExportedName := Text × Bool

/-- One export entry in `get_exported_names`. -/
def addExportedName (fromStar : Bool) (names : List ExportedName) (me : ExportEntry) : List ExportedName :=
  if fromStar ∧ me.exportName = atomDefault then names
  else if names.any fun en => en.1 = me.exportName then
    names.map fun en => if en.1 = me.exportName then (en.1, false) else en
  else names ++ [(me.exportName, !fromStar && decide (me.exportType = .local))]

/-- `GetExportNamesState` -/
structure ExportNames where
  modules : List Nat
  exportedNames : List ExportedName

def exportedStars (get : ExportNames → Nat → Option ExportNames) (d : ModuleDef) :
    List Nat → ExportNames → Option ExportNames
  | [], s => some s
  | i :: rest, s => do
    let m1 ← d.modules[i]?
    let s ← get s m1
    exportedStars get d rest s

/-- `get_exported_names` -/
def getExportedNames (c : Context) : Nat → Bool → ExportNames → Nat → Option ExportNames
  | 0, _, _, _ => none
  | fuel + 1, fromStar, s, m =>
    if m ∈ s.modules then some s
    else do
      let d ← c.read m
      exportedStars (getExportedNames c fuel true) d d.script.starExportEntries
        ⟨s.modules ++ [m], d.script.exportEntries.foldl (addExportedName fromStar) s.exportedNames⟩

/-- The loop of `js_build_module_ns` that resolves the names, without those that are ambiguous; `some none` where
it throws. -/
def resolveNames (c : Context) (fuel m : Nat) : List ExportedName → List Text → Option (Option (List Text))
  | [], names => some (some names)
  | (name, fast) :: rest, names =>
    if fast then resolveNames c fuel m rest (names ++ [name])
    else do
      match ← resolveExport c fuel m name with
      | .found _ _ => resolveNames c fuel m rest (names ++ [name])
      | .ambiguous => resolveNames c fuel m rest names
      | .notFound | .circular => some none

/-- `js_build_module_ns`: the names in the order of `js_string_compare` -/
def buildModuleNs (fuel m : Nat) (c : Context) : Option (Option (List Text)) := do
  let s ← getExportedNames c fuel false ⟨[], []⟩ m
  let names ← resolveNames c fuel m s.exportedNames []
  some (names.map fun names => names.mergeSort fun a b => decide (a ≤ b))

/-- `js_get_module_ns` -/
def getModuleNs (fuel m : Nat) (c : Context) : Option (Bool × Context) := do
  let d ← c.read m
  if d.moduleNs.isSome then some (true, c)
  else do
    match ← buildModuleNs fuel m c with
    | none => some (false, c)
    | some names => some (true, c.write m { d with moduleNs := some names })

/-! ## Linking -/

/-- One pass over the modules that are requested. -/
def overRequested (f : Nat → Context → Option (Bool × Context)) :
    List (Option Nat) → Context → Option (Bool × Context)
  | [], c => some (true, c)
  | none :: _, _ => none
  | some m1 :: rest, c => do
    let (ok, c) ← f m1 c
    if ok then overRequested f rest c else some (false, c)

/-- `js_create_module_function`, which fails for want of memory only -/
def createModuleFunction : Nat → Nat → Context → Option (Bool × Context)
  | 0, _, _ => none
  | fuel + 1, m, c => do
    let d ← c.read m
    if d.funcCreated then some (true, c)
    else overRequested (createModuleFunction fuel) d.requested (c.write m { d with funcCreated := true })

/-- The indirect exports in `js_link_module`. -/
def linkExports (c : Context) (fuel : Nat) (d : ModuleDef) : List ExportEntry → Option Bool
  | [] => some true
  | me :: rest =>
    match me.exportType with
    | .local => linkExports c fuel d rest
    | .indirect i =>
      if me.localName = atomStar then linkExports c fuel d rest
      else do
        let m1 ← d.modules[i]?
        match ← resolveExport c fuel m1 me.localName with
        | .found _ _ => linkExports c fuel d rest
        | _ => some false

/-- One import in `js_link_module`. -/
def linkImport (fuel : Nat) (d : ModuleDef) (mi : ImportEntry) (c : Context) : Option (Bool × Context) := do
  let m1 ← d.modules[mi.reqModuleIdx]?
  if mi.importName = atomStar then getModuleNs fuel m1 c
  else do
    match ← resolveExport c fuel m1 mi.importName with
    | .found resM resMe =>
      if resMe.localName = atomStar then
        -- name space import from
        match resMe.exportType with
        | .local => none
        | .indirect i => do
          let d2 ← c.read resM
          let m2 ← d2.modules[i]?
          getModuleNs fuel m2 c
      else some (true, c)
    | _ => some (false, c)

/-- The imports in `js_link_module`. -/
def linkImports (fuel : Nat) (d : ModuleDef) : List ImportEntry → Context → Option (Bool × Context)
  | [], c => some (true, c)
  | mi :: rest, c => do
    let (ok, c) ← linkImport fuel d mi c
    if ok then linkImports fuel d rest c else some (false, c)

/-- `js_link_module` -/
def linkModule : Nat → Nat → Context → Option (Bool × Context)
  | 0, _, _ => none
  | fuel + 1, m, c => do
    let d ← c.read m
    if d.instantiated then some (true, c)
    else do
      let (ok, c) ← overRequested (linkModule fuel) d.requested (c.write m { d with instantiated := true })
      if !ok then some (false, c)
      else do
        let ok ← linkExports c fuel d d.script.exportEntries
        if !ok then some (false, c) else linkImports fuel d d.script.importEntries c

/-! ## Evaluation -/

/-- The call of the module's function, and the flags after it. -/
def runModule (host : Host) (m : Nat) (c : Context) : Option (Bool × Context) := do
  let d ← c.read m
  let ok := !host.throws m
  some (ok, { c with ran := c.ran ++ [m] }.write m
    { d with evalHasException := !ok, evalMark := false, evaluated := true })

/-- The loop of `js_evaluate_module` over the requests. -/
def evaluateRequested (evaluate : Nat → Context → Option (Bool × Context)) (m : Nat) :
    List (Option Nat) → Context → Option (Bool × Context)
  | [], c => some (true, c)
  | none :: _, _ => none
  | some m1 :: rest, c => do
    let d1 ← c.read m1
    if d1.evalMark then evaluateRequested evaluate m rest c
    else do
      let (ok, c) ← evaluate m1 c
      if ok then evaluateRequested evaluate m rest c
      else do
        let d ← c.read m
        some (false, c.write m { d with evalMark := false })

/-- `js_evaluate_module`; `false` is an exception. -/
def evaluateModule (host : Host) : Nat → Nat → Context → Option (Bool × Context)
  | 0, _, _ => none
  | fuel + 1, m, c => do
    let d ← c.read m
    if d.evalMark then some (true, c)
    else if d.evaluated then some (!d.evalHasException, c)
    else do
      let (ok, c) ← evaluateRequested (evaluateModule host fuel) m d.requested
        (c.write m { d with evalMark := true })
      if ok then runModule host m c else some (false, c)

/-- The module part of `JS_EvalFunctionInternal`. -/
def evalFunction (host : Host) (fuel m : Nat) (c : Context) : Option (Bool × Context) := do
  let (_, c) ← createModuleFunction fuel m c
  let (ok, c) ← linkModule fuel m c
  let (ok, c) ← if ok then evaluateModule host fuel m c else some (false, c)
  some (ok, if ok then c else c.freeModulesNotEvaluated)

/-- `executeModuleScript` of a source that parses: `JS_Eval` with the flag for modules. -/
def executeModuleScript (host : Host) (fuel : Nat) (name : Text) (script : Script) (c : Context) :
    Option (Bool × Context) := do
  let (ok, c') ← resolveModule host fuel c.next (c.newModuleDef name script)
  if ok then evalFunction host fuel c.next c' else some (false, c'.freeModuleDef c.next)

end QuickJSBridge.Es6
