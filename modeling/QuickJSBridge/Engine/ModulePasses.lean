import QuickJSBridge.Engine.ModuleLoading
import Mathlib.Logic.Relation

/-!
# Passes over modules

After a script is loaded, `JS_EvalFunctionInternal` goes over the module and what it requests three times: to make
the functions, to link and to evaluate. Each pass visits a module before it is done with it, so that requests in
circles do no harm, and writes flags only.

* `Static` — what no pass changes: the modules, their names, scripts and requests;
* `Relinked` — what the first two passes change; `createModuleFunction_relinked`, `linkModule_relinked`;
* `Reaches` — one module requests another, over any number of modules in between.
-/

namespace QuickJSBridge.Es6

open Relation

variable {c c₁ c' : Context} {m : Nat} {d : ModuleDef} {ok : Bool}

/-! ## What passes leave as it is -/

structure Static (c c' : Context) : Prop where
  next : c'.next = c.next
  loaded : c'.loadedModules = c.loadedModules
  asked : c'.asked = c.asked
  name : ∀ x, (c'.defs x).moduleName = (c.defs x).moduleName
  script : ∀ x, (c'.defs x).script = (c.defs x).script
  modules : ∀ x, (c'.defs x).modules = (c.defs x).modules
  resolved : ∀ x, (c'.defs x).resolved = (c.defs x).resolved
  -- what was freed is not written
  freed : ∀ x, x ∉ c.loadedModules → c'.defs x = c.defs x

theorem Static.refl (c : Context) : Static c c :=
  ⟨rfl, rfl, rfl, fun _ => rfl, fun _ => rfl, fun _ => rfl, fun _ => rfl, fun _ _ => rfl⟩

theorem Static.trans (h : Static c c₁) (h' : Static c₁ c') : Static c c' where
  next := h'.next.trans h.next
  loaded := h'.loaded.trans h.loaded
  asked := h'.asked.trans h.asked
  name := fun x => (h'.name x).trans (h.name x)
  script := fun x => (h'.script x).trans (h.script x)
  modules := fun x => (h'.modules x).trans (h.modules x)
  resolved := fun x => (h'.resolved x).trans (h.resolved x)
  freed := fun x hx => by
    have hx' : x ∉ c₁.loadedModules := by
      rw [h.loaded]
      exact hx
    exact (h'.freed x hx').trans (h.freed x hx)

/-- Flags of one module are written. -/
theorem static_write (hm : m ∈ c.loadedModules) (hname : d.moduleName = (c.defs m).moduleName)
    (hscript : d.script = (c.defs m).script) (hmodules : d.modules = (c.defs m).modules)
    (hresolved : d.resolved = (c.defs m).resolved) : Static c (c.write m d) := by
  have hfield : ∀ {α : Type} (f : ModuleDef → α), f d = f (c.defs m) → ∀ x, f ((c.write m d).defs x) = f (c.defs x) := by
    intro α f hf x
    show f (Function.update c.defs m d x) = _
    rw [Function.update_apply]
    split
    · rename_i hx
      rw [hx]
      exact hf
    · rfl
  exact ⟨rfl, rfl, rfl, hfield _ hname, hfield _ hscript, hfield _ hmodules, hfield _ hresolved,
    fun x hx => write_defs fun heq => hx (heq ▸ hm)⟩

/-- What making the functions and linking leave as it is. -/
structure Relinked (c c' : Context) : Prop extends Static c c' where
  ran : c'.ran = c.ran
  mark : ∀ x, (c'.defs x).evalMark = (c.defs x).evalMark
  evaluated : ∀ x, (c'.defs x).evaluated = (c.defs x).evaluated
  failed : ∀ x, (c'.defs x).evalHasException = (c.defs x).evalHasException

theorem Relinked.refl (c : Context) : Relinked c c :=
  ⟨.refl c, rfl, fun _ => rfl, fun _ => rfl, fun _ => rfl⟩

theorem Relinked.trans (h : Relinked c c₁) (h' : Relinked c₁ c') : Relinked c c' where
  toStatic := h.toStatic.trans h'.toStatic
  ran := h'.ran.trans h.ran
  mark := fun x => (h'.mark x).trans (h.mark x)
  evaluated := fun x => (h'.evaluated x).trans (h.evaluated x)
  failed := fun x => (h'.failed x).trans (h.failed x)

theorem relinked_write (hm : m ∈ c.loadedModules) (created instantiated : Bool) (ns : Option (List Text)) :
    Relinked c (c.write m { c.defs m with
      funcCreated := created, instantiated := instantiated, moduleNs := ns }) := by
  have hfield : ∀ {α : Type} (f : ModuleDef → α), f { c.defs m with
      funcCreated := created, instantiated := instantiated, moduleNs := ns } = f (c.defs m) →
      ∀ x, f ((c.write m { c.defs m with
        funcCreated := created, instantiated := instantiated, moduleNs := ns }).defs x) = f (c.defs x) := by
    intro α f hf x
    show f (Function.update c.defs m _ x) = _
    rw [Function.update_apply]
    split
    · rename_i hx
      rw [hx]
      exact hf
    · rfl
  exact ⟨static_write hm rfl rfl rfl rfl, rfl, hfield _ rfl, hfield _ rfl, hfield _ rfl⟩

/-! ## The passes -/

/-- What each visit keeps, a pass keeps. -/
theorem overRequested_rel {r : Context → Context → Prop} (hrefl : ∀ c, r c c)
    (htrans : ∀ {a b d}, r a b → r b d → r a d) {f : Nat → Context → Option (Bool × Context)}
    (hf : ∀ m1 c ok c', f m1 c = some (ok, c') → r c c') {requested : List (Option Nat)}
    (h : overRequested f requested c = some (ok, c')) : r c c' := by
  induction requested generalizing c with
  | nil =>
    cases h
    exact hrefl _
  | cons m1 rest ih =>
    cases m1 with
    | none => cases h
    | some m1 =>
      obtain ⟨⟨ok₁, c₁⟩, hgo, h⟩ := Option.bind_eq_some_iff.mp h
      have hfirst := hf m1 _ ok₁ c₁ hgo
      cases ok₁ with
      | false =>
        cases h
        exact hfirst
      | true => exact htrans hfirst (ih h)

theorem createModuleFunction_relinked {fuel : Nat} (h : createModuleFunction fuel m c = some (ok, c')) :
    Relinked c c' := by
  induction fuel generalizing m c ok c' with
  | zero => cases h
  | succ fuel ih =>
    obtain ⟨d, hread, h⟩ := Option.bind_eq_some_iff.mp h
    obtain ⟨hm, rfl⟩ := Context.read_eq_some.mp hread
    by_cases hcreated : (c.defs m).funcCreated = true
    · rw [if_pos hcreated] at h
      cases h
      exact .refl c
    · rw [if_neg hcreated] at h
      exact (relinked_write hm true _ _).trans
        (overRequested_rel .refl .trans (fun _ _ _ _ hgo => ih hgo) h)

theorem getModuleNs_relinked {fuel : Nat} (h : getModuleNs fuel m c = some (ok, c')) : Relinked c c' := by
  obtain ⟨d, hread, h⟩ := Option.bind_eq_some_iff.mp h
  obtain ⟨hm, rfl⟩ := Context.read_eq_some.mp hread
  by_cases hns : (c.defs m).moduleNs.isSome = true
  · rw [if_pos hns] at h
    cases h
    exact .refl c
  · rw [if_neg hns] at h
    obtain ⟨r, -, h⟩ := Option.bind_eq_some_iff.mp h
    cases r with
    | none =>
      cases h
      exact .refl c
    | some names =>
      cases h
      exact relinked_write hm _ _ (some names)

theorem linkImport_relinked {fuel : Nat} {mi : ImportEntry} (h : linkImport fuel d mi c = some (ok, c')) :
    Relinked c c' := by
  obtain ⟨m1, -, h⟩ := Option.bind_eq_some_iff.mp h
  by_cases hstar : mi.importName = atomStar
  · rw [if_pos hstar] at h
    exact getModuleNs_relinked h
  · rw [if_neg hstar] at h
    obtain ⟨r, -, h⟩ := Option.bind_eq_some_iff.mp h
    cases r with
    | found resM resMe =>
      simp only at h
      split at h
      · split at h
        · cases h
        · obtain ⟨d2, -, h⟩ := Option.bind_eq_some_iff.mp h
          obtain ⟨m2, -, h⟩ := Option.bind_eq_some_iff.mp h
          exact getModuleNs_relinked h
      · cases h
        exact .refl c
    | notFound | circular | ambiguous =>
      cases h
      exact .refl c

theorem linkImports_relinked {fuel : Nat} {imports : List ImportEntry}
    (h : linkImports fuel d imports c = some (ok, c')) : Relinked c c' := by
  induction imports generalizing c with
  | nil =>
    cases h
    exact .refl _
  | cons mi rest ih =>
    obtain ⟨⟨ok₁, c₁⟩, hfirst, h⟩ := Option.bind_eq_some_iff.mp h
    have hlinked := linkImport_relinked hfirst
    cases ok₁ with
    | false =>
      cases h
      exact hlinked
    | true => exact hlinked.trans (ih h)

theorem linkModule_relinked {fuel : Nat} (h : linkModule fuel m c = some (ok, c')) : Relinked c c' := by
  induction fuel generalizing m c ok c' with
  | zero => cases h
  | succ fuel ih =>
    obtain ⟨d, hread, h⟩ := Option.bind_eq_some_iff.mp h
    obtain ⟨hm, rfl⟩ := Context.read_eq_some.mp hread
    by_cases hinstantiated : (c.defs m).instantiated = true
    · rw [if_pos hinstantiated] at h
      cases h
      exact .refl c
    · rw [if_neg hinstantiated] at h
      obtain ⟨⟨ok₁, c₁⟩, hover, h⟩ := Option.bind_eq_some_iff.mp h
      have hlinked : Relinked c c₁ :=
        (relinked_write hm _ true _).trans (overRequested_rel .refl .trans (fun _ _ _ _ hgo => ih hgo) hover)
      cases ok₁ with
      | false =>
        cases h
        exact hlinked
      | true =>
        obtain ⟨ok₂, -, h⟩ := Option.bind_eq_some_iff.mp h
        cases ok₂ with
        | false =>
          cases h
          exact hlinked
        | true => exact hlinked.trans (linkImports_relinked h)

/-! ## Requests -/

/-- Module `x` requests `y`. -/
def Requests (c : Context) (x y : Nat) : Prop := y ∈ (c.defs x).modules

/-- Module `y` is `x`, or is requested by it over other modules. -/
abbrev Reaches (c : Context) : Nat → Nat → Prop := ReflTransGen (Requests c)

theorem reaches_mono (h : ∀ x, (c.defs x).modules ⊆ (c'.defs x).modules) {x y : Nat} (hreach : Reaches c x y) :
    Reaches c' x y :=
  ReflTransGen.mono (fun a _ hab => h a hab) x y hreach

theorem Static.reaches (h : Static c c') {x y : Nat} (hreach : Reaches c x y) : Reaches c' x y :=
  reaches_mono (fun x => by rw [h.modules x]; exact List.Subset.refl _) hreach

end QuickJSBridge.Es6
