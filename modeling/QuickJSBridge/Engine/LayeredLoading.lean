import QuickJSBridge.Engine.LoadingFrame

/-!
# Loading without circles

A module that is loaded may refer to one that is on the way. If that one fails it is freed, and the reference
stays. Where every script requests only what lies below it this cannot happen: what a module refers to was loaded
before it, and is never freed while the module is there.

* `Descends` — a script requests only what lies below it, by a rank of names;
* `LayeredOff` — outside of the modules on the way, every request refers to a module that is loaded;
* `load_layered` — loading ends and keeps this, whether it succeeds or not, by induction on the fuel, of which the
  rank is the measure.
-/

namespace QuickJSBridge.Es6

variable {host : Host} {c c₁ c' : Context} {m : Nat} {rank : Text → Nat} {way : List Nat}

def Descends (host : Host) (rank : Text → Nat) (name : Text) (script : Script) : Prop :=
  ∀ request ∈ script.reqModuleEntries, ∀ cname, host.convertModuleName name request = some cname →
    rank cname < rank name

/-- Each script of the loader requests only what lies below it. -/
def Host.Descending (host : Host) (rank : Text → Nat) : Prop :=
  ∀ name script, host.getModuleScript name = some script → Descends host rank name script

/-- The modules that are not on the way have all their requests, and refer to such modules only. -/
structure LayeredOff (rank : Text → Nat) (way : List Nat) (c : Context) : Prop where
  complete : ∀ x ∈ c.loadedModules, x ∉ way →
    (c.defs x).modules.length = (c.defs x).script.reqModuleEntries.length
  below : ∀ x ∈ c.loadedModules, x ∉ way → ∀ y, y ∈ (c.defs x).modules →
    y ∈ c.loadedModules ∧ y ∉ way ∧ rank (c.nameOf y) < rank (c.nameOf x)

abbrev Layered (rank : Text → Nat) : Context → Prop := LayeredOff rank []

/-- Module `m` lies below all that are on the way. -/
def Under (rank : Text → Nat) (way : List Nat) (c : Context) (r : Nat) : Prop :=
  ∀ x ∈ way, x < c.next ∧ r < rank (c.nameOf x)

theorem Under.not_mem {r : Nat} (h : Under rank way c r) (hm : rank (c.nameOf m) ≤ r) : m ∉ way :=
  fun hmem => absurd (h m hmem).2 (by omega)

theorem Under.extended {ex : Nat → Prop} {r : Nat} (h : Under rank way c r) (hex : ∀ x ∈ way, ¬ ex x)
    (hext : Extended ex c c') : Under rank way c' r := by
  intro x hx
  obtain ⟨hlt, hrank⟩ := h x hx
  unfold Context.nameOf
  rw [hext.same x hlt (hex x hx)]
  exact ⟨Nat.lt_of_lt_of_le hlt hext.next, hrank⟩

/-- A new module is on the way. -/
theorem LayeredOff.newModuleDef (h : LayeredOff rank way c) (hc : Numbered c) (name : Text) (script : Script) :
    LayeredOff rank (c.next :: way) (c.newModuleDef name script) := by
  have hold : ∀ x ∈ (c.newModuleDef name script).loadedModules, x ∉ c.next :: way →
      x ∈ c.loadedModules ∧ x ∉ way ∧ (c.newModuleDef name script).defs x = c.defs x := by
    intro x hx hway
    rw [List.mem_cons, not_or] at hway
    refine ⟨?_, hway.2, newModuleDef_defs hway.1⟩
    exact (List.mem_append.mp hx).resolve_right fun hlast => hway.1 (List.mem_singleton.mp hlast)
  refine ⟨fun x hx hway => ?_, fun x hx hway y hy => ?_⟩
  · obtain ⟨hmem, hoff, hsame⟩ := hold x hx hway
    rw [hsame]
    exact h.complete x hmem hoff
  · obtain ⟨hmem, hoff, hsame⟩ := hold x hx hway
    rw [hsame] at hy
    obtain ⟨hy, hyoff, hrank⟩ := h.below x hmem hoff y hy
    have hne : y ≠ c.next := Nat.ne_of_lt (hc y hy)
    refine ⟨List.mem_append_left _ hy, ?_, ?_⟩
    · rw [List.mem_cons, not_or]
      exact ⟨hne, hyoff⟩
    · unfold Context.nameOf
      rw [hsame, newModuleDef_defs hne]
      exact hrank

/-- A module on the way is freed. -/
theorem LayeredOff.free {l : List Nat} (h : LayeredOff rank (m :: way) c) (hl : l ⊆ c.loadedModules) (hm : m ∉ l)
    (hrest : ∀ x ∈ c.loadedModules, x ≠ m → x ∈ l) : LayeredOff rank way { c with loadedModules := l } := by
  have hoff : ∀ x ∈ l, x ∉ way → x ∉ m :: way := by
    intro x hx hway
    rw [List.mem_cons, not_or]
    exact ⟨fun heq => hm (heq ▸ hx), hway⟩
  refine ⟨fun x hx hway => h.complete x (hl hx) (hoff x hx hway), fun x hx hway y hy => ?_⟩
  obtain ⟨hmem, hyoff, hrank⟩ := h.below x (hl hx) (hoff x hx hway) y hy
  rw [List.mem_cons, not_or] at hyoff
  exact ⟨hrest y hmem hyoff.1, hyoff.2, hrank⟩

/-- A module on the way is done. -/
theorem LayeredOff.done (h : LayeredOff rank (m :: way) c)
    (hcomplete : (c.defs m).modules.length = (c.defs m).script.reqModuleEntries.length)
    (hbelow : ∀ y ∈ (c.defs m).modules,
      y ∈ c.loadedModules ∧ y ∉ m :: way ∧ rank (c.nameOf y) < rank (c.nameOf m)) : LayeredOff rank way c := by
  have hoff : ∀ {x}, x ∉ way → x ≠ m → x ∉ m :: way := by
    intro x hway hne
    rw [List.mem_cons, not_or]
    exact ⟨hne, hway⟩
  refine ⟨fun x hx hway => ?_, fun x hx hway y hy => ?_⟩
  · by_cases hxm : x = m
    · rw [hxm]
      exact hcomplete
    · exact h.complete x hx (hoff hway hxm)
  · have hy : y ∈ c.loadedModules ∧ y ∉ m :: way ∧ rank (c.nameOf y) < rank (c.nameOf x) := by
      by_cases hxm : x = m
      · rw [hxm] at hy ⊢
        exact hbelow y hy
      · exact h.below x hx (hoff hway hxm) y hy
    exact ⟨hy.1, fun hmem => hy.2.1 (List.mem_cons_of_mem m hmem), hy.2.2⟩

/-- A module on the way is written. -/
theorem LayeredOff.write {d : ModuleDef} (h : LayeredOff rank way c) (hm : m ∈ way)
    (hname : d.moduleName = c.nameOf m) : LayeredOff rank way (c.write m d) := by
  have hsame : ∀ {x}, x ∉ way → (c.write m d).defs x = c.defs x :=
    fun hx => write_defs fun heq => hx (heq ▸ hm)
  refine ⟨fun x hx hway => ?_, fun x hx hway y hy => ?_⟩
  · rw [hsame hway]
    exact h.complete x hx hway
  · rw [hsame hway] at hy
    rw [nameOf_write hname, nameOf_write hname]
    exact h.below x hx hway y hy

/-! ## The recursion -/

/-- What is known of the recursive call: it returns for modules that are resolved, and for those that are new and lie
below all on the way. -/
structure LoadsLayered (rank : Text → Nat) (host : Host) (fuel : Nat)
    (resolve : Nat → Context → Option (Bool × Context)) : Prop extends Extends resolve where
  returns : ∀ c m, m ∈ c.loadedModules → (c.defs m).resolved = true → resolve m c = some (true, c)
  layered : ∀ c m way, Ready c m → Blank c → LayeredOff rank (m :: way) c → Under rank way c (rank (c.nameOf m)) →
    Descends host rank (c.nameOf m) (c.defs m).script → rank (c.nameOf m) < fuel →
    ∃ ok c', resolve m c = some (ok, c') ∧ LayeredOff rank (m :: way) c' ∧ (ok = true → LayeredOff rank way c')

variable {fuel : Nat} {resolve : Nat → Context → Option (Bool × Context)}

/-- A new module is loaded below those on the way. -/
theorem LoadsLayered.load_below (hloads : LoadsLayered rank host fuel resolve) (hc : Numbered c) (hblank : Blank c)
    (hresolved : ∀ x ∈ c.loadedModules, (c.defs x).resolved = true) (h : LayeredOff rank way c) {name : Text}
    {script : Script} (hunder : Under rank way c (rank name)) (hdescends : Descends host rank name script)
    (hfuel : rank name < fuel) :
    ∃ ok c', resolve c.next (c.newModuleDef name script) = some (ok, c') ∧ LayeredOff rank (c.next :: way) c' ∧
      (ok = true → LayeredOff rank way c') := by
  have hname : (c.newModuleDef name script).nameOf c.next = name := by
    unfold Context.nameOf
    rw [newModuleDef_defs_self]
    rfl
  have hscript : ((c.newModuleDef name script).defs c.next).script = script := by
    rw [newModuleDef_defs_self]
    rfl
  refine hloads.layered _ _ way (ready_newModuleDef hc hresolved name script) (blank_newModuleDef hblank name script)
    (h.newModuleDef hc name script) ?_ ?_ ?_
  · rw [hname]
    intro x hx
    obtain ⟨hlt, hrank⟩ := hunder x hx
    unfold Context.nameOf
    rw [newModuleDef_defs (Nat.ne_of_lt hlt)]
    exact ⟨Nat.lt_succ_of_lt hlt, hrank⟩
  · rw [hname, hscript]
    exact hdescends
  · rw [hname]
    exact hfuel

/-- After a new module failed it is freed. -/
theorem LayeredOff.freeModuleDef (hc : Numbered c) {name : Text} {script : Script} {ex : Nat → Prop}
    (hext : Extended ex (c.newModuleDef name script) c') (h : LayeredOff rank (c.next :: way) c') :
    LayeredOff rank way (c'.freeModuleDef c.next) :=
  h.free (List.erase_subset ..) (not_mem_freeModuleDef hc hext) fun _ hx hne => (List.mem_erase_of_ne hne).mpr hx

theorem hostResolve_layered (hloads : LoadsLayered rank host fuel resolve)
    (hhost : host.Descending rank) (hc : Numbered c) (hblank : Blank c)
    (hresolved : ∀ x ∈ c.loadedModules, (c.defs x).resolved = true) (h : LayeredOff rank way c) {cname : Text}
    (hunder : Under rank way c (rank cname)) (hfuel : rank cname < fuel) :
    ∃ r c', hostResolve host resolve c cname = some (r, c') ∧ LayeredOff rank way c' ∧
      ∀ m1, r = some m1 → m1 ∈ c'.loadedModules ∧ m1 ∉ way ∧ c'.nameOf m1 = cname := by
  unfold hostResolve
  cases hfind : c.findLoadedModule cname with
  | some m1 =>
    obtain ⟨hmem, hname⟩ := find_mem hfind
    refine ⟨some m1, c, rfl, h, fun m2 heq => ?_⟩
    cases heq
    exact ⟨hmem, hunder.not_mem (by rw [hname]), hname⟩
  | none =>
    have hasked : LayeredOff rank way { c with asked := c.asked ++ [cname] } := ⟨h.complete, h.below⟩
    simp only
    cases hscript : host.getModuleScript cname with
    | none => exact ⟨none, _, rfl, hasked, fun _ heq => by cases heq⟩
    | some script =>
      have hc₁ : Numbered { c with asked := c.asked ++ [cname] } := hc
      obtain ⟨ok, c', hgo, hoff, hdone⟩ :=
        hloads.load_below hc₁ hblank hresolved hasked hunder (hhost cname script hscript) hfuel
      have hready := ready_newModuleDef hc₁ hresolved cname script
      have hblank₁ : Blank { c with asked := c.asked ++ [cname] } := hblank
      have hext := (hloads.load _ _ ok c' hready.numbered (blank_newModuleDef hblank₁ cname script) hready.resolved
        hgo).1
      show ∃ r c'', (resolve c.next ({ c with asked := c.asked ++ [cname] }.newModuleDef cname script)).bind _ =
        some (r, c'') ∧ _
      rw [show resolve c.next _ = some (ok, c') from hgo]
      cases ok with
      | false =>
        have hfreed := LayeredOff.freeModuleDef hc₁ hext hoff
        exact ⟨none, _, rfl, hfreed, fun _ heq => by cases heq⟩
      | true =>
        refine ⟨some c.next, c', rfl, hdone rfl, fun m1 heq => ?_⟩
        cases heq
        obtain ⟨new, hloaded, -⟩ := hext.loaded
        refine ⟨?_, fun hmem => absurd (hunder _ hmem).1 (Nat.lt_irrefl _), ?_⟩
        · rw [hloaded]
          exact List.mem_append_left _ (List.mem_append_right _ (List.mem_singleton_self _))
        · rw [hext.name c.next (Nat.lt_succ_self _)]
          unfold Context.nameOf
          rw [newModuleDef_defs_self (c := { c with asked := c.asked ++ [cname] })]
          rfl

/-- One more module that `m` refers to lies below it. -/
theorem below_snoc {m1 : Nat} (hext : Extended (fun _ => False) c c₁) (hc : Numbered c) (hlt : m < c.next)
    (hbelow : ∀ y ∈ (c.defs m).modules, y ∈ c.loadedModules ∧ y ∉ m :: way ∧ rank (c.nameOf y) < rank (c.nameOf m))
    (hm1 : m1 ∈ c₁.loadedModules ∧ m1 ∉ m :: way ∧ rank (c₁.nameOf m1) < rank (c₁.nameOf m)) :
    ∀ y ∈ (c₁.defs m).modules ++ [m1], y ∈ c₁.loadedModules ∧ y ∉ m :: way ∧ rank (c₁.nameOf y) < rank (c₁.nameOf m) := by
  intro y hy
  rcases List.mem_append.mp hy with hy | hy
  · rw [hext.same m hlt id] at hy
    obtain ⟨hmem, hoff, hlower⟩ := hbelow y hy
    obtain ⟨new, hloaded, -⟩ := hext.loaded
    refine ⟨?_, hoff, ?_⟩
    · rw [hloaded]
      exact List.mem_append_left _ hmem
    · rw [hext.name y (hc y hmem), hext.name m hlt]
      exact hlower
  · exact List.mem_singleton.mp hy ▸ hm1

/-- The requests that are left, when what `m` refers to so far lies below it. -/
theorem resolveRequests_layered (hloads : LoadsLayered rank host fuel resolve)
    (hhost : host.Descending rank) {rest : List Text} (hm : m ∈ c.loadedModules) (hc : Numbered c) (hblank : Blank c)
    (hresolved : ∀ x ∈ c.loadedModules, (c.defs x).resolved = true) (h : LayeredOff rank (m :: way) c)
    (hunder : Under rank way c (rank (c.nameOf m)))
    (hrest : (c.defs m).modules.length + rest.length = (c.defs m).script.reqModuleEntries.length)
    (hbelow : ∀ y ∈ (c.defs m).modules,
      y ∈ c.loadedModules ∧ y ∉ m :: way ∧ rank (c.nameOf y) < rank (c.nameOf m))
    (hdescends : ∀ request ∈ rest, ∀ cname, host.convertModuleName (c.nameOf m) request = some cname →
      rank cname < rank (c.nameOf m)) (hfuel : rank (c.nameOf m) < fuel + 1) :
    ∃ ok c', resolveRequests host resolve m (c.nameOf m) rest c = some (ok, c') ∧ LayeredOff rank (m :: way) c' ∧
      (ok = true → LayeredOff rank way c') := by
  induction rest generalizing c with
  | nil => exact ⟨true, c, rfl, h, fun _ => h.done hrest hbelow⟩
  | cons name rest ih =>
    unfold resolveRequests
    cases hconvert : host.convertModuleName (c.nameOf m) name with
    | none => exact ⟨false, c, rfl, h, fun hok => absurd hok Bool.false_ne_true⟩
    | some cname =>
      have hrank := hdescends name List.mem_cons_self cname hconvert
      have hway : Under rank (m :: way) c (rank cname) := by
        intro x hx
        rcases List.mem_cons.mp hx with rfl | hx
        · exact ⟨hc x hm, hrank⟩
        · exact ⟨(hunder x hx).1, Nat.lt_trans hrank (hunder x hx).2⟩
      obtain ⟨r, c₁, hgo, hoff, hfound⟩ :=
        hostResolve_layered hloads hhost hc hblank hresolved h hway (by omega)
      obtain ⟨hext, hr⟩ := hostResolve_extended hloads.toExtends hc hblank hresolved hgo
      show ∃ ok c', (hostResolve host resolve c cname).bind _ = some (ok, c') ∧ _
      rw [hgo]
      cases r with
      | none => exact ⟨false, c₁, rfl, hoff, fun hok => absurd hok Bool.false_ne_true⟩
      | some m1 =>
        obtain ⟨hm1, hm1off, hm1name⟩ := hfound m1 rfl
        have hlt : m < c.next := hc m hm
        have hsame : c₁.defs m = c.defs m := hext.same m hlt id
        have hname : c₁.nameOf m = c.nameOf m := hext.name m hlt
        have hlower : rank (c₁.nameOf m1) < rank (c₁.nameOf m) := by
          rw [hm1name, hname]
          exact hrank
        let d' : ModuleDef := { c₁.defs m with modules := (c₁.defs m).modules ++ [m1] }
        have hname' : d'.moduleName = c₁.nameOf m := rfl
        have hm₁ : m ∈ c₁.loadedModules := by
          obtain ⟨new, hloaded, -⟩ := hext.loaded
          rw [hloaded]
          exact List.mem_append_left _ hm
        have hwrite : Extended (· = m) c (c₁.write m d') :=
          (hext.mono fun _ hf => hf.elim).trans (fun x hx => hx ▸ hlt)
            (extended_write (Nat.lt_of_lt_of_le hlt hext.next) hext.blank _ _ id)
        have hresolved₂ := hwrite.resolved hc hresolved
        have hgo₁ := hloads.returns (c₁.write m d') m1 hm1 (hresolved₂ m1 hm1)
        have hmway : m ∉ way := hunder.not_mem (Nat.le_refl _)
        have hunder₂ : Under rank way (c₁.write m d') (rank ((c₁.write m d').nameOf m)) := by
          rw [hwrite.name m hlt]
          refine hunder.extended (fun x hx hxm => hmway ?_) hwrite
          exact hxm ▸ hx
        have hself : (c₁.write m d').defs m = d' := write_defs_self
        have hscript : d'.script = (c.defs m).script := congrArg (fun d => d.script) hsame
        have hmodules : d'.modules = (c.defs m).modules ++ [m1] := congrArg (fun d => d.modules ++ [m1]) hsame
        have hm₂ : m ∈ (c₁.write m d').loadedModules := hm₁
        have hrest₂ : ((c₁.write m d').defs m).modules.length + rest.length =
            ((c₁.write m d').defs m).script.reqModuleEntries.length := by
          rw [hself, hscript, hmodules, ← hrest, List.length_append, List.length_singleton, List.length_cons]
          omega
        have hbelow₂ : ∀ y ∈ ((c₁.write m d').defs m).modules, y ∈ (c₁.write m d').loadedModules ∧ y ∉ m :: way ∧
            rank ((c₁.write m d').nameOf y) < rank ((c₁.write m d').nameOf m) := by
          intro y hy
          rw [hself] at hy
          rw [nameOf_write hname', nameOf_write hname']
          exact below_snoc hext hc hlt hbelow ⟨hm1, hm1off, hlower⟩ y hy
        have hdescends₂ : ∀ request ∈ rest, ∀ cname,
            host.convertModuleName ((c₁.write m d').nameOf m) request = some cname →
            rank cname < rank ((c₁.write m d').nameOf m) := by
          rw [nameOf_write hname', hname]
          exact fun request hrequest => hdescends request (List.mem_cons_of_mem name hrequest)
        obtain ⟨ok, c', hgo', hoff', hdone'⟩ := ih hm₂ (hwrite.numbered hc) hwrite.blank hresolved₂
          (hoff.write List.mem_cons_self hname') hunder₂ hrest₂ hbelow₂ hdescends₂
          (by rw [nameOf_write hname', hname]; exact hfuel)
        refine ⟨ok, c', ?_, hoff', hdone'⟩
        show (c₁.read m).bind _ = _
        rw [Context.read_eq_some.mpr ⟨hm₁, rfl⟩]
        show (resolve m1 (c₁.write m d')).bind _ = _
        rw [hgo₁]
        show resolveRequests host resolve m (c.nameOf m) rest (c₁.write m d') = _
        rw [← hgo', nameOf_write hname', hname]

theorem resolveModule_layered (hhost : host.Descending rank) (fuel : Nat) :
    LoadsLayered rank host fuel (resolveModule host (fuel + 1)) := by
  have hreturns : ∀ fuel c m, m ∈ c.loadedModules → (c.defs m).resolved = true →
      resolveModule host (fuel + 1) m c = some (true, c) := by
    intro fuel c m hmem hres
    unfold resolveModule
    rw [Context.read_eq_some.mpr ⟨hmem, rfl⟩]
    exact if_pos hres
  induction fuel with
  | zero =>
    exact ⟨resolveModule_extended host 1, hreturns 0, fun _ _ _ _ _ _ _ _ hfuel => absurd hfuel (Nat.not_lt_zero _)⟩
  | succ fuel ih =>
    refine ⟨resolveModule_extended host (fuel + 2), hreturns (fuel + 1), ?_⟩
    intro c m way hready hblank hoff hunder hdescends hfuel
    let d' : ModuleDef := { c.defs m with resolved := true }
    have hname : d'.moduleName = c.nameOf m := rfl
    have hself : (c.write m d').defs m = d' := write_defs_self
    have hlt : m < c.next := hready.numbered m hready.mem
    have hwrite : Extended (· = m) c (c.write m d') := extended_write hlt hblank _ true fun _ => rfl
    have hall : ∀ x ∈ (c.write m d').loadedModules, ((c.write m d').defs x).resolved = true :=
      resolved_write rfl hready.resolved
    have hmway : m ∉ way := hunder.not_mem (Nat.le_refl _)
    have hmem : m ∈ (c.write m d').loadedModules := hready.mem
    have hnone : ((c.write m d').defs m).modules = [] := by
      rw [hself]
      exact hready.unbound
    have hunder' : Under rank way (c.write m d') (rank ((c.write m d').nameOf m)) := by
      rw [nameOf_write hname]
      refine hunder.extended (fun x hx hxm => hmway ?_) hwrite
      exact hxm ▸ hx
    have hlength : ((c.write m d').defs m).modules.length + (c.defs m).script.reqModuleEntries.length =
        ((c.write m d').defs m).script.reqModuleEntries.length := by
      rw [hnone, hself]
      exact Nat.zero_add _
    obtain ⟨ok, c', hgo, hoff', hdone⟩ := resolveRequests_layered ih hhost hmem (hwrite.numbered hready.numbered)
      hwrite.blank hall (hoff.write List.mem_cons_self hname) hunder' hlength
      (by rw [hnone]; exact fun _ hx => absurd hx List.not_mem_nil) (by rw [nameOf_write hname]; exact hdescends)
      (by rw [nameOf_write hname]; exact hfuel)
    refine ⟨ok, c', ?_, hoff', hdone⟩
    unfold resolveModule
    rw [Context.read_eq_some.mpr ⟨hready.mem, rfl⟩]
    show (if (c.defs m).resolved = true then _ else _) = _
    rw [hready.unresolved, if_neg (by decide)]
    rw [nameOf_write hname] at hgo
    exact hgo

end QuickJSBridge.Es6
