import QuickJSBridge.Engine.LayeredLoading
import QuickJSBridge.Engine.ModuleNamespaces
import QuickJSBridge.Engine.ModuleRuns

/-!
# Module scripts without circles

Where every script requests only what lies below it, no pass reads a module that was freed or uses a request that
was not resolved, whatever fails: a missing script, a syntax error, a missing or ambiguous export, an exception.

* `Layered.module`, `linkModule_isSome`, `evaluateModule_isSome` — the passes end on modules that are layered, of
  which the rank is the measure;
* `executeModuleScript_layered` — one script;
* `executions_layered` — any number of scripts: all of them end, and each module runs after what it requests.
-/

namespace QuickJSBridge.Es6

open Machine Relation

variable {host : Host} {c c₁ c' : Context} {m : Nat} {ok : Bool} {fuel : Nat} {rank : Text → Nat}

/-! ## Layered modules -/

theorem LayeredOff.closed (h : Layered rank c) : Closed c where
  complete := fun m hm => h.complete m hm List.not_mem_nil
  loaded := fun m hm m1 hm1 => (h.below m hm List.not_mem_nil m1 hm1).1

theorem Static.layered (hstatic : Static c c') (h : Layered rank c) : Layered rank c' := by
  have hname : ∀ x, c'.nameOf x = c.nameOf x := hstatic.name
  refine ⟨fun x hx _ => ?_, fun x hx _ y hy => ?_⟩
  · rw [hstatic.loaded] at hx
    rw [hstatic.modules, hstatic.script]
    exact h.complete x hx List.not_mem_nil
  · rw [hstatic.loaded] at hx ⊢
    rw [hstatic.modules] at hy
    rw [hname, hname]
    exact h.below x hx List.not_mem_nil y hy

/-- What a request entry refers to. -/
theorem Layered.module (h : Layered rank c) (hm : m ∈ c.loadedModules) {i : Nat}
    (hi : i < (c.defs m).script.reqModuleEntries.length) :
    ∃ m1, (c.defs m).modules[i]? = some m1 ∧ m1 ∈ c.loadedModules ∧ rank (c.nameOf m1) < rank (c.nameOf m) := by
  obtain ⟨m1, hm1, hloaded⟩ := h.closed.module hm hi
  exact ⟨m1, hm1, hloaded, (h.below m hm List.not_mem_nil m1 (List.mem_of_getElem? hm1)).2.2⟩

theorem Layered.requested (h : Layered rank c) (hm : m ∈ c.loadedModules) :
    (c.defs m).requested = (c.defs m).modules.map some := by
  unfold ModuleDef.requested
  rw [h.complete m hm List.not_mem_nil, Nat.sub_self]
  exact List.append_nil _

/-- Where a request leads to is loaded, and lies lower. -/
theorem Layered.reaches (h : Layered rank c) {x y : Nat} (hreach : Reaches c x y) (hx : x ∈ c.loadedModules) :
    y ∈ c.loadedModules ∧ rank (c.nameOf y) ≤ rank (c.nameOf x) := by
  induction hreach with
  | refl => exact ⟨hx, Nat.le_refl _⟩
  | tail _ hstep ih =>
    obtain ⟨hloaded, -, hlower⟩ := h.below _ ih.1 List.not_mem_nil _ hstep
    exact ⟨hloaded, Nat.le_trans (Nat.le_of_lt hlower) ih.2⟩

/-- Requests do not lead back. -/
theorem Layered.not_reaches (h : Layered rank c) {x y : Nat} (hx : x ∈ c.loadedModules) (hy : Requests c x y) :
    ¬ Reaches c y x := by
  intro hreach
  obtain ⟨hloaded, -, hlower⟩ := h.below x hx List.not_mem_nil y hy
  have hle := (h.reaches hreach hloaded).2
  omega

/-! ## Exports -/

theorem Provides.reaches {m' : Nat} {name : Text} {me' : ExportEntry} (h : Provides c m name m' me') :
    Reaches c m m' := by
  induction h with
  | «local» => exact .refl
  | «namespace» => exact .refl
  | indirect _ _ _ hm1 _ ih => exact .head (List.mem_of_getElem? hm1) ih
  | star _ _ _ hm1 _ ih => exact .head (List.mem_of_getElem? hm1) ih

theorem resolveExport1_of_layered (h : Layered rank c) {s : List (Nat × Text)} {name : Text}
    (hm : m ∈ c.loadedModules) (hfuel : rank (c.nameOf m) < fuel) :
    ∃ r s', resolveExport1 c fuel s m name = some (r, s') := by
  induction fuel generalizing s m name with
  | zero => exact absurd hfuel (Nat.not_lt_zero _)
  | succ fuel ih =>
    unfold resolveExport1
    by_cases hs : (m, name) ∈ s
    · rw [if_pos hs]
      exact ⟨_, _, rfl⟩
    · rw [if_neg hs, Context.read_of_mem hm]
      simp only [Option.bind_eq_bind, Option.bind_some]
      split
      · rename_i me hfind
        split
        · exact ⟨_, _, rfl⟩
        · rename_i i htype
          split
          · exact ⟨_, _, rfl⟩
          · obtain ⟨m1, hm1, hloaded, hlower⟩ :=
              h.module hm ((c.defs m).script.export_lt me (mem_of_findExportEntry hfind) i htype)
            rw [hm1]
            exact ih hloaded (by omega)
      · split
        · exact ⟨_, _, rfl⟩
        · refine resolveStars_isSome (P := fun _ => True) (fun i hi => ?_) trivial
          obtain ⟨m1, hm1, hloaded, hlower⟩ := h.module hm ((c.defs m).script.star_lt i hi)
          refine ⟨m1, hm1, fun s _ => ?_⟩
          obtain ⟨r, s', hr⟩ := ih hloaded (by omega)
          exact ⟨r, s', hr, trivial⟩

theorem resolveExport_of_layered (h : Layered rank c) (hm : m ∈ c.loadedModules)
    (hfuel : rank (c.nameOf m) < fuel) (name : Text) : ∃ r, resolveExport c fuel m name = some r := by
  have hsearch : ∃ r s, resolveExport1 c fuel [] m name = some (r, s) := resolveExport1_of_layered h hm hfuel
  obtain ⟨r, s, hr⟩ := hsearch
  refine ⟨r, ?_⟩
  unfold resolveExport
  rw [hr]
  rfl

theorem getExportedNames_of_layered (h : Layered rank c) {fromStar : Bool} {s : ExportNames}
    (hm : m ∈ c.loadedModules) (hfuel : rank (c.nameOf m) < fuel) :
    ∃ s', getExportedNames c fuel fromStar s m = some s' := by
  induction fuel generalizing fromStar s m with
  | zero => exact absurd hfuel (Nat.not_lt_zero _)
  | succ fuel ih =>
    unfold getExportedNames
    by_cases hs : m ∈ s.modules
    · rw [if_pos hs]
      exact ⟨_, rfl⟩
    · rw [if_neg hs, Context.read_of_mem hm]
      refine exportedStars_isSome (P := fun _ => True) (fun i hi => ?_) trivial
      obtain ⟨m1, hm1, hloaded, hlower⟩ := h.module hm ((c.defs m).script.star_lt i hi)
      refine ⟨m1, hm1, fun s₁ _ => ?_⟩
      have hget : ∃ s₂, getExportedNames c fuel true s₁ m1 = some s₂ := ih hloaded (by omega)
      obtain ⟨s₂, hs₂⟩ := hget
      exact ⟨s₂, hs₂, trivial⟩

theorem getModuleNs_isSome (h : Layered rank c) (hm : m ∈ c.loadedModules) (hfuel : rank (c.nameOf m) < fuel) :
    ∃ ok c', getModuleNs fuel m c = some (ok, c') := by
  have hget : ∃ s, getExportedNames c fuel false ⟨[], []⟩ m = some s := getExportedNames_of_layered h hm hfuel
  obtain ⟨s, hs⟩ := hget
  obtain ⟨r, hr, -⟩ := buildModuleNs_of_isSome hs (resolveExport_of_layered h hm hfuel)
  unfold getModuleNs
  rw [Context.read_of_mem hm]
  show ∃ ok c', (if (c.defs m).moduleNs.isSome = true then _ else (buildModuleNs fuel m c).bind _) = some (ok, c')
  split
  · exact ⟨_, _, rfl⟩
  · rw [hr]
    cases r with
    | none => exact ⟨_, _, rfl⟩
    | some names => exact ⟨_, _, rfl⟩

/-! ## Linking -/

/-- A pass ends when its visits do, and leave a context of the same kind. -/
theorem overRequested_isSome {f : Nat → Context → Option (Bool × Context)} {I : Context → Prop} {l : List Nat}
    (hf : ∀ m1 ∈ l, ∀ c, I c → ∃ ok c', f m1 c = some (ok, c') ∧ I c') (hc : I c) :
    ∃ ok c', overRequested f (l.map some) c = some (ok, c') := by
  induction l generalizing c with
  | nil => exact ⟨true, c, rfl⟩
  | cons m1 rest ih =>
    obtain ⟨ok, c₁, hgo, hc₁⟩ := hf m1 List.mem_cons_self c hc
    show ∃ ok c', (f m1 c).bind _ = some (ok, c')
    rw [hgo]
    cases ok with
    | false => exact ⟨_, _, rfl⟩
    | true => exact ih (fun m2 hm2 => hf m2 (List.mem_cons_of_mem m1 hm2)) hc₁

/-- A pass over what `m` requests ends, if it does so for modules that lie lower. -/
theorem overRequested_below {f : Nat → Context → Option (Bool × Context)}
    (hf : ∀ m1 c, Layered rank c → m1 ∈ c.loadedModules → rank (c.nameOf m1) < fuel →
      ∃ ok c', f m1 c = some (ok, c'))
    (hstatic : ∀ m1 c ok c', f m1 c = some (ok, c') → Static c c') (h : Layered rank c) (hm : m ∈ c.loadedModules)
    (hfuel : rank (c.nameOf m) < fuel + 1) (hc : Static c c₁) :
    ∃ ok c', overRequested f (c.defs m).requested c₁ = some (ok, c') := by
  rw [h.requested hm]
  refine overRequested_isSome (I := Static c) (fun m1 hm1 c₂ hc₂ => ?_) hc
  obtain ⟨hloaded, -, hlower⟩ := h.below m hm List.not_mem_nil m1 hm1
  have hname : c₂.nameOf m1 = c.nameOf m1 := hc₂.name m1
  obtain ⟨ok, c', hgo⟩ := hf m1 c₂ (hc₂.layered h) (by rw [hc₂.loaded]; exact hloaded) (by rw [hname]; omega)
  exact ⟨ok, c', hgo, hc₂.trans (hstatic m1 c₂ ok c' hgo)⟩

theorem createModuleFunction_isSome (h : Layered rank c) (hm : m ∈ c.loadedModules)
    (hfuel : rank (c.nameOf m) < fuel) : ∃ ok c', createModuleFunction fuel m c = some (ok, c') := by
  induction fuel generalizing m c with
  | zero => exact absurd hfuel (Nat.not_lt_zero _)
  | succ fuel ih =>
    unfold createModuleFunction
    rw [Context.read_of_mem hm]
    show ∃ ok c', (if (c.defs m).funcCreated = true then _ else _) = some (ok, c')
    split
    · exact ⟨_, _, rfl⟩
    · exact overRequested_below (fun _ _ => ih) (fun _ _ _ _ hgo => (createModuleFunction_relinked hgo).toStatic) h hm
        hfuel (relinked_write hm true _ _).toStatic

/-- A request of `m` in a context that differs in flags only. -/
theorem Layered.module_static (h : Layered rank c) (hm : m ∈ c.loadedModules)
    (hfuel : rank (c.nameOf m) < fuel + 1) (hc : Static c c₁) {i : Nat}
    (hi : i < (c.defs m).script.reqModuleEntries.length) :
    ∃ m1, (c.defs m).modules[i]? = some m1 ∧ m1 ∈ c₁.loadedModules ∧ rank (c₁.nameOf m1) < fuel := by
  obtain ⟨m1, hm1, hloaded, hlower⟩ := h.module hm hi
  have hname : c₁.nameOf m1 = c.nameOf m1 := hc.name m1
  refine ⟨m1, hm1, ?_, ?_⟩
  · rw [hc.loaded]
    exact hloaded
  · rw [hname]
    omega

theorem linkExports_isSome (h : Layered rank c) (hm : m ∈ c.loadedModules) (hfuel : rank (c.nameOf m) < fuel + 1)
    {entries : List ExportEntry} (hentries : ∀ me ∈ entries, me ∈ (c.defs m).script.exportEntries)
    (hc : Static c c₁) : ∃ ok, linkExports c₁ fuel (c.defs m) entries = some ok := by
  induction entries with
  | nil => exact ⟨true, rfl⟩
  | cons me rest ih =>
    have hrest := ih fun me' hme' => hentries me' (List.mem_cons_of_mem me hme')
    unfold linkExports
    cases htype : me.exportType with
    | «local» => exact hrest
    | indirect i =>
      show ∃ ok, (if me.localName = atomStar then _ else _) = some ok
      split
      · exact hrest
      · have hi := (c.defs m).script.export_lt me (hentries me List.mem_cons_self) i htype
        obtain ⟨m1, hm1, hloaded, hlower⟩ := h.module_static hm hfuel hc hi
        obtain ⟨r, hr⟩ := resolveExport_of_layered (hc.layered h) hloaded hlower me.localName
        rw [hm1]
        show ∃ ok, (resolveExport c₁ fuel m1 me.localName).bind _ = some ok
        rw [hr]
        cases r with
        | found _ _ => exact hrest
        | notFound | circular | ambiguous => exact ⟨false, rfl⟩

theorem linkImport_isSome (h : Layered rank c) (hm : m ∈ c.loadedModules) (hfuel : rank (c.nameOf m) < fuel + 1)
    {mi : ImportEntry} (hmi : mi ∈ (c.defs m).script.importEntries) (hc : Static c c₁) :
    ∃ ok c', linkImport fuel (c.defs m) mi c₁ = some (ok, c') := by
  have h₁ : Layered rank c₁ := hc.layered h
  obtain ⟨m1, hm1, hloaded₁, hfuel₁⟩ := h.module_static hm hfuel hc ((c.defs m).script.import_lt mi hmi)
  unfold linkImport
  rw [hm1]
  show ∃ ok c', (if mi.importName = atomStar then getModuleNs fuel m1 c₁ else
    (resolveExport c₁ fuel m1 mi.importName).bind _) = some (ok, c')
  split
  · exact getModuleNs_isSome h₁ hloaded₁ hfuel₁
  · obtain ⟨r, hr⟩ := resolveExport_of_layered h₁ hloaded₁ hfuel₁ mi.importName
    rw [hr]
    cases r with
    | notFound | circular | ambiguous => exact ⟨_, _, rfl⟩
    | found resM resMe =>
      have hprovides := (right_of_resolveExport hr).1
      obtain ⟨hresM, hresMe⟩ := hprovides.mem h₁.closed hloaded₁
      have hle := (h₁.reaches hprovides.reaches hloaded₁).2
      show ∃ ok c', (if resMe.localName = atomStar then _ else _) = some (ok, c')
      split
      · rename_i hstar
        cases htype : resMe.exportType with
        | «local» => exact absurd hstar ((c₁.defs resM).script.local_ne resMe hresMe htype)
        | indirect i =>
          obtain ⟨m2, hm2, hloaded₂, hlower₂⟩ :=
            h₁.module hresM ((c₁.defs resM).script.export_lt resMe hresMe i htype)
          show ∃ ok c', (c₁.read resM).bind _ = some (ok, c')
          rw [Context.read_of_mem hresM]
          show ∃ ok c', ((c₁.defs resM).modules[i]?).bind _ = some (ok, c')
          rw [hm2]
          exact getModuleNs_isSome h₁ hloaded₂ (by omega)
      · exact ⟨_, _, rfl⟩

theorem linkImports_isSome (h : Layered rank c) (hm : m ∈ c.loadedModules) (hfuel : rank (c.nameOf m) < fuel + 1)
    {imports : List ImportEntry} (himports : ∀ mi ∈ imports, mi ∈ (c.defs m).script.importEntries)
    (hc : Static c c₁) : ∃ ok c', linkImports fuel (c.defs m) imports c₁ = some (ok, c') := by
  induction imports generalizing c₁ with
  | nil => exact ⟨true, c₁, rfl⟩
  | cons mi rest ih =>
    obtain ⟨ok, c₂, hgo⟩ := linkImport_isSome h hm hfuel (himports mi List.mem_cons_self) hc
    unfold linkImports
    show ∃ ok c', (linkImport fuel (c.defs m) mi c₁).bind _ = some (ok, c')
    rw [hgo]
    cases ok with
    | false => exact ⟨_, _, rfl⟩
    | true =>
      exact ih (fun mi' hmi' => himports mi' (List.mem_cons_of_mem mi hmi'))
        (hc.trans (linkImport_relinked hgo).toStatic)

theorem linkModule_isSome (h : Layered rank c) (hm : m ∈ c.loadedModules) (hfuel : rank (c.nameOf m) < fuel) :
    ∃ ok c', linkModule fuel m c = some (ok, c') := by
  induction fuel generalizing m c with
  | zero => exact absurd hfuel (Nat.not_lt_zero _)
  | succ fuel ih =>
    unfold linkModule
    rw [Context.read_of_mem hm]
    show ∃ ok c', (if (c.defs m).instantiated = true then _ else _) = some (ok, c')
    split
    · exact ⟨_, _, rfl⟩
    · have hwrite := relinked_write (c := c) hm (c.defs m).funcCreated true (c.defs m).moduleNs
      obtain ⟨ok, c₁, hover⟩ := overRequested_below (fun _ _ => ih)
        (fun _ _ _ _ hgo => (linkModule_relinked hgo).toStatic) h hm hfuel hwrite.toStatic
      show ∃ ok c', (overRequested (linkModule fuel) (c.defs m).requested _).bind _ = some (ok, c')
      rw [hover]
      cases ok with
      | false => exact ⟨_, _, rfl⟩
      | true =>
        have hlinked : Static c c₁ := hwrite.toStatic.trans
          (overRequested_rel .refl .trans (fun _ _ _ _ hgo => (linkModule_relinked hgo).toStatic) hover)
        obtain ⟨ok, hexports⟩ := linkExports_isSome h hm hfuel (fun _ hme => hme) hlinked
        show ∃ ok c', (linkExports c₁ fuel (c.defs m) (c.defs m).script.exportEntries).bind _ = some (ok, c')
        rw [hexports]
        cases ok with
        | false => exact ⟨_, _, rfl⟩
        | true => exact linkImports_isSome h hm hfuel (fun _ hmi => hmi) hlinked

/-! ## Evaluation -/

theorem evaluateRequested_static {evaluate : Nat → Context → Option (Bool × Context)}
    (hevaluate : ∀ m1 c ok c', evaluate m1 c = some (ok, c') → Static c c') {requested : List (Option Nat)}
    (h : evaluateRequested evaluate m requested c = some (ok, c')) : Static c c' := by
  induction requested generalizing c with
  | nil =>
    cases h
    exact .refl _
  | cons m1 rest ih =>
    cases m1 with
    | none => cases h
    | some m1 =>
      obtain ⟨d1, hread, h⟩ := Option.bind_eq_some_iff.mp h
      obtain ⟨-, rfl⟩ := Context.read_eq_some.mp hread
      by_cases hmark : (c.defs m1).evalMark = true
      · rw [if_pos hmark] at h
        exact ih h
      · rw [if_neg hmark] at h
        obtain ⟨⟨ok₁, c₁⟩, hgo, h⟩ := Option.bind_eq_some_iff.mp h
        have hfirst := hevaluate m1 c ok₁ c₁ hgo
        cases ok₁ with
        | false =>
          obtain ⟨d, hread, h⟩ := Option.bind_eq_some_iff.mp h
          obtain ⟨hm, rfl⟩ := Context.read_eq_some.mp hread
          cases h
          exact hfirst.trans (setMark_static hm false)
        | true => exact hfirst.trans (ih h)

theorem evaluateModule_static (h : evaluateModule host fuel m c = some (ok, c')) : Static c c' := by
  induction fuel generalizing m c ok c' with
  | zero => cases h
  | succ fuel ih =>
    obtain ⟨d, hread, h⟩ := Option.bind_eq_some_iff.mp h
    obtain ⟨hm, rfl⟩ := Context.read_eq_some.mp hread
    by_cases hmark : (c.defs m).evalMark = true
    · rw [if_pos hmark] at h
      cases h
      exact .refl c
    rw [if_neg hmark] at h
    by_cases hevaluated : (c.defs m).evaluated = true
    · rw [if_pos hevaluated] at h
      cases h
      exact .refl c
    rw [if_neg hevaluated] at h
    obtain ⟨⟨ok₁, c₁⟩, hgo, h⟩ := Option.bind_eq_some_iff.mp h
    have hrequested := (setMark_static hm true).trans (evaluateRequested_static (fun _ _ _ _ hgo => ih hgo) hgo)
    cases ok₁ with
    | false =>
      cases h
      exact hrequested
    | true =>
      obtain ⟨d, hread, h⟩ := Option.bind_eq_some_iff.mp h
      obtain ⟨hm₁, rfl⟩ := Context.read_eq_some.mp hread
      have hcalled : (!host.throws m, c₁.called host m) = (ok, c') := Option.some.inj h
      obtain ⟨-, rfl⟩ := Prod.mk.inj hcalled
      exact hrequested.trans (called_static hm₁)

theorem evaluateRequested_isSome {evaluate : Nat → Context → Option (Bool × Context)} {l : List Nat}
    (hevaluate : ∀ m1 ∈ l, ∀ c₁, Static c c₁ → ∃ ok c', evaluate m1 c₁ = some (ok, c') ∧ Static c c')
    (hm : m ∈ c.loadedModules) (hl : ∀ m1 ∈ l, m1 ∈ c.loadedModules) (hc : Static c c₁) :
    ∃ ok c', evaluateRequested evaluate m (l.map some) c₁ = some (ok, c') := by
  induction l generalizing c₁ with
  | nil => exact ⟨true, c₁, rfl⟩
  | cons m1 rest ih =>
    have hrest : ∀ c₁, Static c c₁ → ∃ ok c', evaluateRequested evaluate m (rest.map some) c₁ = some (ok, c') :=
      fun c₁ hc => ih (fun m2 hm2 => hevaluate m2 (List.mem_cons_of_mem m1 hm2))
        (fun m2 hm2 => hl m2 (List.mem_cons_of_mem m1 hm2)) hc
    have hm1 : m1 ∈ c₁.loadedModules := by
      rw [hc.loaded]
      exact hl m1 List.mem_cons_self
    show ∃ ok c', (c₁.read m1).bind _ = some (ok, c')
    rw [Context.read_of_mem hm1]
    show ∃ ok c', (if (c₁.defs m1).evalMark = true then _ else (evaluate m1 c₁).bind _) = some (ok, c')
    split
    · exact hrest c₁ hc
    · obtain ⟨ok, c₂, hgo, hc₂⟩ := hevaluate m1 List.mem_cons_self c₁ hc
      rw [hgo]
      cases ok with
      | true => exact hrest c₂ hc₂
      | false =>
        have hm₂ : m ∈ c₂.loadedModules := by
          rw [hc₂.loaded]
          exact hm
        show ∃ ok c', (c₂.read m).bind _ = some (ok, c')
        rw [Context.read_of_mem hm₂]
        exact ⟨_, _, rfl⟩

theorem evaluateModule_isSome (h : Layered rank c) (hm : m ∈ c.loadedModules) (hfuel : rank (c.nameOf m) < fuel) :
    ∃ ok c', evaluateModule host fuel m c = some (ok, c') := by
  induction fuel generalizing m c with
  | zero => exact absurd hfuel (Nat.not_lt_zero _)
  | succ fuel ih =>
    have hmarked : Static c (c.setMark m true) := setMark_static hm true
    have hrequested : ∃ ok c', evaluateRequested (evaluateModule host fuel) m (c.defs m).requested
        (c.setMark m true) = some (ok, c') := by
      rw [h.requested hm]
      have hbelow := fun m1 hm1 => h.below m hm List.not_mem_nil m1 hm1
      refine evaluateRequested_isSome (fun m1 hm1 c₁ hc₁ => ?_) hm (fun m1 hm1 => (hbelow m1 hm1).1) hmarked
      have hname : c₁.nameOf m1 = c.nameOf m1 := hc₁.name m1
      have hlower := (hbelow m1 hm1).2.2
      obtain ⟨ok, c', hgo⟩ := ih (hc₁.layered h) (by rw [hc₁.loaded]; exact (hbelow m1 hm1).1)
        (by rw [hname]; omega)
      exact ⟨ok, c', hgo, hc₁.trans (evaluateModule_static hgo)⟩
    obtain ⟨ok, c₁, hgo⟩ := hrequested
    unfold evaluateModule
    rw [Context.read_of_mem hm]
    show ∃ ok c', (if (c.defs m).evalMark = true then _ else if (c.defs m).evaluated = true then _ else
      (evaluateRequested (evaluateModule host fuel) m (c.defs m).requested (c.setMark m true)).bind _) = some (ok, c')
    split
    · exact ⟨_, _, rfl⟩
    split
    · exact ⟨_, _, rfl⟩
    rw [hgo]
    cases ok with
    | false => exact ⟨_, _, rfl⟩
    | true =>
      have hstatic := hmarked.trans (evaluateRequested_static (fun _ _ _ _ hgo => evaluateModule_static hgo) hgo)
      have hm₁ : m ∈ c₁.loadedModules := by
        rw [hstatic.loaded]
        exact hm
      show ∃ ok c', (c₁.read m).bind _ = some (ok, c')
      rw [Context.read_of_mem hm₁]
      exact ⟨_, _, rfl⟩

/-! ## One script -/

/-- What was evaluated refers to what was evaluated. -/
theorem Layered.freeModulesNotEvaluated (h : Layered rank c) (hlog : Log c) :
    Layered rank c.freeModulesNotEvaluated := by
  have hmem : ∀ x, x ∈ c.freeModulesNotEvaluated.loadedModules ↔
      x ∈ c.loadedModules ∧ (c.defs x).evaluated = true := fun x => List.mem_filter
  refine ⟨fun x hx _ => h.complete x ((hmem x).mp hx).1 List.not_mem_nil, fun x hx _ y hy => ?_⟩
  obtain ⟨hx, hevaluated⟩ := (hmem x).mp hx
  obtain ⟨hy', -, hlower⟩ := h.below x hx List.not_mem_nil y hy
  obtain ⟨pre, post, heq⟩ := List.append_of_mem ((hlog.mem x).mpr hevaluated)
  have hpre := (hlog.order pre x post heq y hy).resolve_left (h.not_reaches hx hy)
  have hran : y ∈ c.ran := by
    rw [heq]
    exact List.mem_append_left _ hpre.1
  exact ⟨(hmem y).mpr ⟨hy', (hlog.mem y).mp hran⟩, List.not_mem_nil, hlower⟩

theorem evalFunction_layered (hsettled : Settled c) (h : Layered rank c) (hm : m ∈ c.loadedModules)
    (hfuel : rank (c.nameOf m) < fuel) :
    ∃ ok c', evalFunction host fuel m c = some (ok, c') ∧ Layered rank c' := by
  have hready : ∀ {c₁ : Context}, Static c c₁ → m ∈ c₁.loadedModules ∧ rank (c₁.nameOf m) < fuel := by
    intro c₁ hc₁
    have hname : c₁.nameOf m = c.nameOf m := hc₁.name m
    rw [hc₁.loaded, hname]
    exact ⟨hm, hfuel⟩
  obtain ⟨ok₁, c₁, hcreate⟩ := createModuleFunction_isSome h hm hfuel
  have hcreated := createModuleFunction_relinked hcreate
  have h₁ := hcreated.toStatic.layered h
  obtain ⟨hm₁, hfuel₁⟩ := hready hcreated.toStatic
  obtain ⟨ok₂, c₂, hlink⟩ := linkModule_isSome h₁ hm₁ hfuel₁
  have hlinked := hcreated.trans (linkModule_relinked hlink)
  have h₂ := hlinked.toStatic.layered h
  have hsettled₂ := hlinked.settled hsettled
  obtain ⟨hm₂, hfuel₂⟩ := hready hlinked.toStatic
  unfold evalFunction
  show ∃ ok c', (createModuleFunction fuel m c).bind _ = some (ok, c') ∧ _
  rw [hcreate]
  show ∃ ok c', (linkModule fuel m c₁).bind _ = some (ok, c') ∧ _
  rw [hlink]
  cases ok₂ with
  | false => exact ⟨_, _, rfl, h₂.freeModulesNotEvaluated hsettled₂.log⟩
  | true =>
    have hends : ∃ ok c', evaluateModule host fuel m c₂ = some (ok, c') := evaluateModule_isSome h₂ hm₂ hfuel₂
    obtain ⟨ok₃, c₃, hevaluate⟩ := hends
    have h₃ := (evaluateModule_static hevaluate).layered h₂
    show ∃ ok c', (evaluateModule host fuel m c₂).bind _ = some (ok, c') ∧ _
    rw [hevaluate]
    cases ok₃ with
    | false => exact ⟨_, _, rfl, h₃.freeModulesNotEvaluated (evaluateModule_settled hsettled₂ hevaluate).log⟩
    | true => exact ⟨_, _, rfl, h₃⟩

/-- A script that requests only what lies below it: execution ends, and leaves layered modules. -/
theorem executeModuleScript_layered (hsettled : Settled c) (h : Layered rank c) (hhost : host.Descending rank)
    {name : Text} {script : Script} (hscript : Descends host rank name script) (hfuel : rank name + 1 < fuel) :
    ∃ ok c', executeModuleScript host fuel name script c = some (ok, c') ∧ Layered rank c' := by
  obtain ⟨k, rfl⟩ : ∃ k, fuel = k + 1 := ⟨fuel - 1, by omega⟩
  have hunder : Under rank [] c (rank name) := fun _ hx => absurd hx List.not_mem_nil
  obtain ⟨ok, c', hresolve, hoff, hdone⟩ := (resolveModule_layered hhost k).load_below hsettled.numbered
    hsettled.blank hsettled.resolved h hunder hscript (by omega)
  have hready := ready_newModuleDef hsettled.numbered hsettled.resolved name script
  have hext := ((resolveModule_extended host (k + 1)).load _ _ ok c' hready.numbered
    (blank_newModuleDef hsettled.blank name script) hready.resolved hresolve).1
  unfold executeModuleScript
  show ∃ ok c', (resolveModule host (k + 1) c.next (c.newModuleDef name script)).bind _ = some (ok, c') ∧ _
  rw [hresolve]
  cases ok with
  | false => exact ⟨_, _, rfl, hoff.freeModuleDef hsettled.numbered hext⟩
  | true =>
    have hextended := (resolveModule_extended host (k + 1)).load_new hsettled.numbered hsettled.blank
      hsettled.resolved hresolve
    have hname : c'.nameOf c.next = name := by
      rw [hext.name c.next (Nat.lt_succ_self _)]
      unfold Context.nameOf
      rw [newModuleDef_defs_self]
      rfl
    have hm : c.next ∈ c'.loadedModules := by
      obtain ⟨new, hloaded, -⟩ := hext.loaded
      rw [hloaded]
      exact List.mem_append_left _ (List.mem_append_right _ (List.mem_singleton_self _))
    exact evalFunction_layered (hextended.1.settled hsettled) (hdone rfl) hm (by rw [hname]; omega)

/-! ## Any number of scripts -/

/-- A script that requests only what lies below it, with a loader of such scripts. -/
structure Execution.Descending (rank : Text → Nat) (e : Execution) : Prop where
  host : e.host.Descending rank
  script : Descends e.host rank e.name e.script
  fuel : rank e.name + 1 < e.fuel

theorem layered_init : Layered rank .init := ⟨fun _ hx => absurd hx List.not_mem_nil, fun _ hx => absurd hx List.not_mem_nil⟩

theorem executions_end {es : List Execution} (hes : ∀ e ∈ es, e.Descending rank) (hsettled : Settled c)
    (h : Layered rank c) : ∃ c', Run execute c es c' ∧ Settled c' ∧ Layered rank c' := by
  induction es generalizing c with
  | nil => exact ⟨c, .nil c, hsettled, h⟩
  | cons e es ih =>
    have he := hes e List.mem_cons_self
    obtain ⟨ok, c₁, hgo, h₁⟩ := executeModuleScript_layered hsettled h he.host he.script he.fuel
    have hstep : execute c e = some c₁ := by
      unfold execute
      rw [hgo]
      rfl
    obtain ⟨c', hrun, hsettled', h'⟩ := ih (fun e' he' => hes e' (List.mem_cons_of_mem e he'))
      (executeModuleScript_settled hsettled hgo) h₁
    exact ⟨c', .cons trivial hstep hrun, hsettled', h'⟩

/-- **Modules that do not request each other in circles**: whatever scripts are executed in whatever order, and
whatever fails, no execution reads a module that was freed or uses a request that was not resolved. In the end
every request of every module refers to a module that is there, and each module has run after all that it
requests, none of which threw. -/
theorem executions_layered {es : List Execution} (hes : ∀ e ∈ es, e.Descending rank) :
    ∃ c, Run execute .init es c ∧ Closed c ∧ c.ran.Nodup ∧ ∀ pre x post, c.ran = pre ++ x :: post →
      x ∈ c.loadedModules ∧ ∀ y, Requests c x y → y ∈ pre ∧ (c.defs y).evalHasException = false := by
  obtain ⟨c, hrun, hsettled, h⟩ := executions_end hes settled_init layered_init
  refine ⟨c, hrun, h.closed, hsettled.log.nodup, fun pre x post heq => ?_⟩
  have hran : x ∈ c.ran := by
    rw [heq]
    exact List.mem_append_right _ List.mem_cons_self
  have hx := hsettled.log.loaded x hran
  exact ⟨hx, fun y hy => (hsettled.log.order pre x post heq y hy).resolve_left (h.not_reaches hx hy)⟩

/-- A loader for modules that request nothing. -/
def sampleLeaves : Host where
  convertModuleName := fun _ name => some name
  getModuleScript := fun name => if name = ModuleNames.text ['b'] then some .empty else none
  throws := fun _ => false

/-- The first script requests `b` and runs, the second requests `b` and `c` and cannot be loaded. -/
def sampleScripts : List Execution :=
  [⟨sampleLeaves, 3, ModuleNames.text ['a'], .ofRequests [ModuleNames.text ['b']]⟩,
    ⟨sampleLeaves, 3, ModuleNames.text ['a'], .ofRequests [ModuleNames.text ['b'], ModuleNames.text ['c']]⟩]

def sampleRank (name : Text) : Nat := if name = ModuleNames.text ['a'] then 1 else 0

theorem sampleLeaves_descending : sampleLeaves.Descending sampleRank := by
  intro name script hscript request hrequest
  have hempty : script = .empty := by
    unfold sampleLeaves at hscript
    simp only at hscript
    split at hscript
    · exact (Option.some.inj hscript).symm
    · cases hscript
  rw [hempty] at hrequest
  exact absurd hrequest List.not_mem_nil

theorem sampleScripts_descending : ∀ e ∈ sampleScripts, e.Descending sampleRank := by
  have hscript : ∀ requests : List Text, (∀ request ∈ requests, sampleRank request = 0) →
      Descends sampleLeaves sampleRank (ModuleNames.text ['a']) (.ofRequests requests) := by
    intro requests hrequests request hrequest cname hname
    cases hname
    rw [hrequests request hrequest]
    decide
  intro e he
  rcases List.mem_pair.mp he with rfl | rfl
  · exact ⟨sampleLeaves_descending, hscript _ (by decide), by decide⟩
  · exact ⟨sampleLeaves_descending, hscript _ (by decide), by decide⟩

theorem executions_layered_sample : ∃ c, Run execute .init sampleScripts c ∧ Closed c ∧ c.ran.Nodup ∧
    ∀ pre x post, c.ran = pre ++ x :: post →
      x ∈ c.loadedModules ∧ ∀ y, Requests c x y → y ∈ pre ∧ (c.defs y).evalHasException = false :=
  executions_layered sampleScripts_descending

-- `b` has run before `a`; the second `a` is freed again
example : (exec execute .init sampleScripts).map (fun c => (c.ran, c.loadedModules)) = some ([1, 0], [0, 1]) := by
  decide

-- In circles it is otherwise. `a` requests `b` and `c`, `b` requests `a`, and there is no `c`: `a` is freed, and
-- `b` stays, which refers to it.
example :
    (execute .init ⟨{ sampleLeaves with
      getModuleScript := fun name =>
        if name = ModuleNames.text ['b'] then some (.ofRequests [ModuleNames.text ['a']]) else none }, 9,
      ModuleNames.text ['a'], .ofRequests [ModuleNames.text ['b'], ModuleNames.text ['c']]⟩).map
      (fun c => (c.loadedModules, (c.defs 1).modules)) = some ([1], [0]) := by
  decide

end QuickJSBridge.Es6
