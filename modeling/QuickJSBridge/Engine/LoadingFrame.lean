import QuickJSBridge.Engine.ModuleLoading

/-!
# What loading leaves alone

Loading may fail at any depth: a script is missing or does not parse, or a name cannot be converted. The modules on
the way to the failure are freed again, those that were loaded before it stay. Whether it fails or not, loading
touches no module that was there, apart from the requests of the one it is called for.

* `Extended` — what loading changes;
* `resolveModule_extended` — by induction on the fuel, of any modules in any circles.
-/

namespace QuickJSBridge.Es6

variable {host : Host} {c c₁ c' : Context} {m : Nat} {ok : Bool}

/-- No module has been made from here on. -/
def Blank (c : Context) : Prop := ∀ x, c.next ≤ x → c.defs x = .new [] .empty

/-- What loading leaves as it is, whether it succeeds or not. Of modules for which `ex` holds, requests may have been
resolved. -/
structure Extended (ex : Nat → Prop) (c c' : Context) : Prop where
  next : c.next ≤ c'.next
  ran : c'.ran = c.ran
  loaded : ∃ new, c'.loadedModules = c.loadedModules ++ new ∧ ∀ x ∈ new, c.next ≤ x ∧ x < c'.next
  same : ∀ x < c.next, ¬ ex x → c'.defs x = c.defs x
  name : ∀ x < c.next, c'.nameOf x = c.nameOf x
  flags : ∀ x < c.next, (c'.defs x).evaluated = (c.defs x).evaluated ∧ (c'.defs x).evalMark = (c.defs x).evalMark ∧
    ((c.defs x).resolved = true → (c'.defs x).resolved = true)
  new : ∀ x, c.next ≤ x → x < c'.next →
    (c'.defs x).evaluated = false ∧ (c'.defs x).evalMark = false ∧ (c'.defs x).resolved = true
  blank : Blank c'

namespace Extended

variable {ex : Nat → Prop}

theorem refl (h : Blank c) : Extended ex c c :=
  ⟨Nat.le_refl _, rfl, ⟨[], (List.append_nil _).symm, fun _ hx => absurd hx List.not_mem_nil⟩, fun _ _ _ => rfl, fun _ _ => rfl,
    fun _ _ => ⟨rfl, rfl, id⟩,
    fun x hx hlt => by omega, h⟩

theorem trans (hex : ∀ x, ex x → x < c.next) (h : Extended ex c c₁) (h' : Extended ex c₁ c') : Extended ex c c' := by
  obtain ⟨new, hloaded, hnew⟩ := h.loaded
  obtain ⟨new', hloaded', hnew'⟩ := h'.loaded
  have hnext := h.next
  have hnext' := h'.next
  exact {
    next := Nat.le_trans hnext hnext'
    ran := h'.ran.trans h.ran
    loaded := by
      refine ⟨new ++ new', by rw [hloaded', hloaded, List.append_assoc], fun x hx => ?_⟩
      rcases List.mem_append.mp hx with hx | hx
      · have hlt := hnew x hx
        omega
      · have hlt := hnew' x hx
        omega
    same := fun x hx hne => by rw [h'.same x (by omega) hne, h.same x hx hne]
    name := fun x hx => (h'.name x (by omega)).trans (h.name x hx)
    flags := fun x hx => by
      obtain ⟨hevaluated, hmark, hresolved⟩ := h.flags x hx
      obtain ⟨hevaluated', hmark', hresolved'⟩ := h'.flags x (by omega)
      exact ⟨hevaluated'.trans hevaluated, hmark'.trans hmark, fun hx => hresolved' (hresolved hx)⟩
    new := fun x hge hlt => by
      by_cases hx : x < c₁.next
      · obtain ⟨hevaluated, hmark, hresolved⟩ := h.new x hge hx
        rw [h'.same x hx fun hexx => absurd (hex x hexx) (by omega)]
        exact ⟨hevaluated, hmark, hresolved⟩
      · exact h'.new x (by omega) hlt
    blank := h'.blank }

theorem mono {ex' : Nat → Prop} (hex : ∀ x, ex x → ex' x) (h : Extended ex c c') : Extended ex' c c' :=
  ⟨h.next, h.ran, h.loaded, fun x hx hne => h.same x hx fun he => hne (hex x he), h.name, h.flags, h.new,
    h.blank⟩

theorem numbered (h : Extended ex c c') (hc : Numbered c) : Numbered c' := by
  obtain ⟨new, hloaded, hnew⟩ := h.loaded
  intro x hx
  rw [hloaded, List.mem_append] at hx
  rcases hx with hx | hx
  · exact Nat.lt_of_lt_of_le (hc x hx) h.next
  · exact (hnew x hx).2

theorem resolved (h : Extended ex c c') (hc : Numbered c) (hresolved : ∀ x ∈ c.loadedModules, (c.defs x).resolved = true) :
    ∀ x ∈ c'.loadedModules, (c'.defs x).resolved = true := by
  obtain ⟨new, hloaded, hnew⟩ := h.loaded
  intro x hx
  rw [hloaded, List.mem_append] at hx
  rcases hx with hx | hx
  · exact (h.flags x (hc x hx)).2.2 (hresolved x hx)
  · exact (h.new x (hnew x hx).1 (hnew x hx).2).2.2

end Extended

/-- Requests of a module are written. -/
theorem extended_write (hm : m < c.next) (hblank : Blank c) (modules : List Nat) (resolved : Bool)
    (hresolved : (c.defs m).resolved = true → resolved = true) :
    Extended (· = m) c (c.write m { c.defs m with modules := modules, resolved := resolved }) where
  next := Nat.le_refl _
  ran := rfl
  loaded := ⟨[], (List.append_nil _).symm, fun _ hx => absurd hx List.not_mem_nil⟩
  same := fun x _ hx => write_defs hx
  name := fun x _ => by
    refine nameOf_write ?_ x
    rfl
  flags := fun x _ => by
    by_cases hx : x = m
    · rw [hx, write_defs_self]
      exact ⟨rfl, rfl, hresolved⟩
    · rw [write_defs hx]
      exact ⟨rfl, rfl, id⟩
  new := fun x hge hlt => absurd hlt (Nat.not_lt.mpr hge)
  blank := fun x hx => by
    have hge : c.next ≤ x := hx
    rw [write_defs (by omega)]
    exact hblank x hge

/-- A new module, with what it requests. -/
theorem Extended.of_newModuleDef {name : Text} {script : Script}
    (h : Extended (· = c.next) (c.newModuleDef name script) c') (hresolved : (c'.defs c.next).resolved = true) :
    Extended (fun _ => False) c c' := by
  have hnext : c.next + 1 ≤ c'.next := h.next
  obtain ⟨new, hloaded, hnew⟩ := h.loaded
  exact {
    next := by omega
    ran := h.ran
    loaded := by
      refine ⟨c.next :: new, ?_, fun x hx => ?_⟩
      · rw [hloaded]
        show (c.loadedModules ++ [c.next]) ++ new = _
        rw [List.append_assoc, List.singleton_append]
      · rcases List.mem_cons.mp hx with rfl | hx
        · omega
        · have hlt : c.next + 1 ≤ x ∧ x < c'.next := hnew x hx
          omega
    same := fun x hx _ => by
      have hne : x ≠ c.next := Nat.ne_of_lt hx
      rw [h.same x (Nat.lt_succ_of_lt hx) hne, newModuleDef_defs hne]
    name := fun x hx => by
      rw [h.name x (Nat.lt_succ_of_lt hx)]
      unfold Context.nameOf
      rw [newModuleDef_defs (Nat.ne_of_lt hx)]
    flags := fun x hx => by
      have hne : x ≠ c.next := Nat.ne_of_lt hx
      rw [h.same x (Nat.lt_succ_of_lt hx) hne, newModuleDef_defs hne]
      exact ⟨rfl, rfl, id⟩
    new := fun x hge hlt => by
      by_cases hx : x = c.next
      · obtain ⟨hevaluated, hmark, -⟩ := h.flags c.next (Nat.lt_succ_self _)
        rw [newModuleDef_defs_self] at hevaluated hmark
        rw [hx]
        exact ⟨hevaluated, hmark, hresolved⟩
      · have hge' : c.next + 1 ≤ x := by omega
        exact h.new x hge' hlt
    blank := h.blank }

/-- The new module is freed again. -/
theorem Extended.freeModuleDef {ex : Nat → Prop} (hc : Numbered c) (h : Extended ex c c') :
    Extended ex c (c'.freeModuleDef c.next) where
  next := h.next
  ran := h.ran
  loaded := by
    obtain ⟨new, hloaded, hnew⟩ := h.loaded
    have hnot : c.next ∉ c.loadedModules := fun hmem => Nat.lt_irrefl _ (hc _ hmem)
    refine ⟨new.erase c.next, ?_, fun x hx => hnew x (List.mem_of_mem_erase hx)⟩
    show c'.loadedModules.erase c.next = _
    rw [hloaded, List.erase_append_right _ hnot]
  same := h.same
  name := h.name
  flags := h.flags
  new := h.new
  blank := h.blank

theorem not_mem_freeModuleDef (hc : Numbered c) {name : Text} {script : Script} {ex : Nat → Prop}
    (h : Extended ex (c.newModuleDef name script) c') : c.next ∉ (c'.freeModuleDef c.next).loadedModules := by
  obtain ⟨new, hloaded, hnew⟩ := h.loaded
  have hnot : c.next ∉ c.loadedModules := fun hmem => Nat.lt_irrefl _ (hc _ hmem)
  show c.next ∉ c'.loadedModules.erase c.next
  rw [hloaded]
  show c.next ∉ ((c.loadedModules ++ [c.next]) ++ new).erase c.next
  rw [List.append_assoc, List.erase_append_right _ hnot, List.singleton_append, List.erase_cons_head, List.mem_append]
  intro hmem
  rcases hmem with hmem | hmem
  · exact hnot hmem
  · have hge : c.next + 1 ≤ c.next := (hnew _ hmem).1
    omega

theorem blank_newModuleDef (h : Blank c) (name : Text) (script : Script) : Blank (c.newModuleDef name script) := by
  intro x hx
  have hge : c.next + 1 ≤ x := hx
  rw [newModuleDef_defs (by omega)]
  exact h x (by omega)

/-! ## The recursion -/

/-- What is known of the recursive call. A module that is resolved is not touched. -/
structure Extends (resolve : Nat → Context → Option (Bool × Context)) : Prop where
  done : ∀ c m ok c', (c.defs m).resolved = true → resolve m c = some (ok, c') → ok = true ∧ c' = c
  load : ∀ c m ok c', Numbered c → Blank c → (∀ x ∈ c.loadedModules, x ≠ m → (c.defs x).resolved = true) →
    resolve m c = some (ok, c') → Extended (· = m) c c' ∧ (c'.defs m).resolved = true

variable {resolve : Nat → Context → Option (Bool × Context)}

/-- A new module is loaded. -/
theorem Extends.load_new (hresolve : Extends resolve) (hc : Numbered c) (hblank : Blank c)
    (hresolved : ∀ x ∈ c.loadedModules, (c.defs x).resolved = true) {name : Text} {script : Script}
    (h : resolve c.next (c.newModuleDef name script) = some (ok, c')) :
    Extended (fun _ => False) c c' ∧ c.next < c'.next := by
  have hready := ready_newModuleDef hc hresolved name script
  obtain ⟨hextended, hself⟩ :=
    hresolve.load _ _ ok c' hready.numbered (blank_newModuleDef hblank name script) hready.resolved h
  exact ⟨hextended.of_newModuleDef hself, hextended.next⟩

theorem hostResolve_extended (hresolve : Extends resolve) (hc : Numbered c) (hblank : Blank c)
    (hresolved : ∀ x ∈ c.loadedModules, (c.defs x).resolved = true) {cname : Text} {r : Option Nat}
    (h : hostResolve host resolve c cname = some (r, c')) :
    Extended (fun _ => False) c c' ∧ ∀ m1, r = some m1 → (c'.defs m1).resolved = true := by
  unfold hostResolve at h
  cases hfind : c.findLoadedModule cname with
  | some m1 =>
    rw [hfind] at h
    cases h
    refine ⟨.refl hblank, fun m2 heq => ?_⟩
    cases heq
    exact hresolved m1 (find_mem hfind).1
  | none =>
    rw [hfind] at h
    simp only at h
    -- the context that the loader is called in differs in what was asked for only
    have hasked : ∀ {c' : Context}, Extended (fun _ => False) { c with asked := c.asked ++ [cname] } c' →
        Extended (fun _ => False) c c' :=
      fun hext => ⟨hext.next, hext.ran, hext.loaded, hext.same, hext.name, hext.flags, hext.new, hext.blank⟩
    cases hscript : host.getModuleScript cname with
    | none =>
      rw [hscript] at h
      cases h
      exact ⟨hasked (.refl hblank), fun _ heq => by cases heq⟩
    | some script =>
      rw [hscript] at h
      obtain ⟨⟨ok₁, c₁⟩, hgo, h⟩ := Option.bind_eq_some_iff.mp h
      have hc₁ : Numbered { c with asked := c.asked ++ [cname] } := hc
      obtain ⟨hload, hnext⟩ := hresolve.load_new hc₁ hblank hresolved hgo
      cases ok₁ with
      | false =>
        cases h
        exact ⟨hasked (hload.freeModuleDef hc₁), fun _ heq => by cases heq⟩
      | true =>
        cases h
        refine ⟨hasked hload, fun m1 heq => ?_⟩
        cases heq
        exact (hload.new c.next (Nat.le_refl _) hnext).2.2

theorem resolveRequests_extended (hresolve : Extends resolve) (hc : Numbered c) (hblank : Blank c)
    (hresolved : ∀ x ∈ c.loadedModules, (c.defs x).resolved = true) (hm : m ∈ c.loadedModules) {base : Text}
    {rest : List Text} (h : resolveRequests host resolve m base rest c = some (ok, c')) :
    Extended (· = m) c c' := by
  induction rest generalizing c with
  | nil =>
    cases h
    exact .refl hblank
  | cons name rest ih =>
    unfold resolveRequests at h
    cases hconvert : host.convertModuleName base name with
    | none =>
      rw [hconvert] at h
      cases h
      exact .refl hblank
    | some cname =>
      rw [hconvert] at h
      obtain ⟨⟨r, c₁⟩, hgo, h⟩ := Option.bind_eq_some_iff.mp h
      obtain ⟨hfirst, hr⟩ := hostResolve_extended hresolve hc hblank hresolved hgo
      have hfirst' : Extended (· = m) c c₁ := hfirst.mono fun _ hf => hf.elim
      have hlt : m < c.next := hc m hm
      cases r with
      | none =>
        cases h
        exact hfirst'
      | some m1 =>
        obtain ⟨d, hread, h⟩ := Option.bind_eq_some_iff.mp h
        obtain ⟨hm₁, rfl⟩ := Context.read_eq_some.mp hread
        obtain ⟨⟨ok₁, c₂⟩, hgo₁, h⟩ := Option.bind_eq_some_iff.mp h
        have hwrite : Extended (· = m) c₁ (c₁.write m { c₁.defs m with modules := (c₁.defs m).modules ++ [m1] }) :=
          extended_write (Nat.lt_of_lt_of_le hlt hfirst.next) hfirst.blank _ _ id
        have hsecond := hfirst'.trans (fun x hx => hx ▸ hlt) hwrite
        have hm1 : ((c₁.write m { c₁.defs m with modules := (c₁.defs m).modules ++ [m1] }).defs m1).resolved =
            true := by
          by_cases heq : m1 = m
          · rw [heq, write_defs_self]
            exact heq ▸ hr m1 rfl
          · rw [write_defs heq]
            exact hr m1 rfl
        -- the request was resolved by the loader already
        obtain ⟨rfl, rfl⟩ := hresolve.done _ _ _ _ hm1 hgo₁
        exact hsecond.trans (fun x hx => hx ▸ hlt)
          (ih (hsecond.numbered hc) hsecond.blank (hsecond.resolved hc hresolved) hm₁ h)

theorem resolveModule_extended (host : Host) (fuel : Nat) : Extends (resolveModule host fuel) := by
  induction fuel with
  | zero => exact ⟨fun _ _ _ _ _ h => (by cases h), fun _ _ _ _ _ _ _ h => (by cases h)⟩
  | succ fuel ih =>
    have hdone : ∀ c m ok c', (c.defs m).resolved = true → resolveModule host (fuel + 1) m c = some (ok, c') →
        ok = true ∧ c' = c := by
      intro c m ok c' hresolved h
      obtain ⟨d, hread, h⟩ := Option.bind_eq_some_iff.mp h
      obtain ⟨-, rfl⟩ := Context.read_eq_some.mp hread
      rw [if_pos hresolved] at h
      cases h
      exact ⟨rfl, rfl⟩
    refine ⟨hdone, fun c m ok c' hc hblank hothers h => ?_⟩
    by_cases hresolved : (c.defs m).resolved = true
    · obtain ⟨-, rfl⟩ := hdone c m ok c' hresolved h
      exact ⟨.refl hblank, hresolved⟩
    · obtain ⟨d, hread, h⟩ := Option.bind_eq_some_iff.mp h
      obtain ⟨hm, rfl⟩ := Context.read_eq_some.mp hread
      rw [if_neg hresolved] at h
      have hlt : m < c.next := hc m hm
      have hwrite : Extended (· = m) c (c.write m { c.defs m with resolved := true }) :=
        extended_write hlt hblank _ true fun _ => rfl
      have hself : ((c.write m { c.defs m with resolved := true }).defs m).resolved = true := by
        rw [write_defs_self]
      have hall : ∀ x ∈ (c.write m { c.defs m with resolved := true }).loadedModules,
          ((c.write m { c.defs m with resolved := true }).defs x).resolved = true := by
        intro x hx
        by_cases hxm : x = m
        · rw [hxm]
          exact hself
        · rw [write_defs hxm]
          exact hothers x hx hxm
      have hc' : Numbered (c.write m { c.defs m with resolved := true }) := hc
      have hrest := resolveRequests_extended ih hc' hwrite.blank hall hm h
      exact ⟨hwrite.trans (fun x hx => hx ▸ hlt) hrest, (hrest.flags m hlt).2.2 hself⟩

end QuickJSBridge.Es6
