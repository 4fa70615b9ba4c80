import QuickJSBridge.Engine.Modules
import QuickJSBridge.Lib.Visited

/-!
# Loading modules

`js_resolve_module` loads what a module requests, and what that requests in turn. A module is in the list of loaded
modules before its requests are resolved, so that modules may request each other in circles.

* `Bound` — each request of a module refers to the module that its name finds;
* `Grows` — what loading adds to a context; it adds at the end, and so finds nothing else under an old name;
* `resolveModule_grows` — by induction on the fuel, of which names that are not yet loaded are the measure;
* `load_bound` — a script is loaded with what it imports: each name is asked for once, and every request is bound.
-/

namespace QuickJSBridge.Es6

open Visited

variable {host : Host} {c c₁ c' : Context}

/-! ## Requests -/

def Context.nameOf (c : Context) (m : Nat) : Text := (c.defs m).moduleName

def Context.loadedNames (c : Context) : List Text := c.loadedModules.map c.nameOf

/-- The first `k` requests of `m` refer to the modules that their names find. -/
structure BoundTo (host : Host) (c : Context) (m k : Nat) : Prop where
  length : (c.defs m).modules.length = k
  found : ∀ i < k, ∃ name cname, (c.defs m).script.reqModuleEntries[i]? = some name ∧
    host.convertModuleName (c.nameOf m) name = some cname ∧ c.findLoadedModule cname = (c.defs m).modules[i]?

/-- All requests of `m` refer to the modules that their names find. -/
structure Bound (host : Host) (c : Context) (m : Nat) : Prop where
  resolved : (c.defs m).resolved = true
  requests : BoundTo host c m (c.defs m).script.reqModuleEntries.length

/-- What loading adds: the modules `new`, at the end. Modules for which `ex` holds may have changed. -/
structure Grows (host : Host) (ex : Nat → Prop) (c c' : Context) (new : List Nat) : Prop where
  loaded : c'.loadedModules = c.loadedModules ++ new
  asked : c'.asked = c.asked ++ new.map c'.nameOf
  next : c.next ≤ c'.next
  fresh : ∀ x ∈ new, c.next ≤ x ∧ x < c'.next
  names : (new.map c'.nameOf).Nodup
  unknown : ∀ x ∈ new, c'.nameOf x ∉ c.loadedNames
  same : ∀ x < c.next, ¬ ex x → c'.defs x = c.defs x
  static : ∀ x < c.next, c'.nameOf x = c.nameOf x
  bound : ∀ x ∈ new, Bound host c' x

/-- Ids of modules are handed out in turn. -/
def Numbered (c : Context) : Prop := ∀ x ∈ c.loadedModules, x < c.next

theorem find_append_of_some {l l' : List Nat} {p p' : Nat → Bool} {m : Nat} (h : l.find? p = some m)
    (hp : ∀ x ∈ l, p' x = p x) : (l ++ l').find? p' = some m := by
  have hcongr : l.find? p' = some m := by
    rw [← h]
    clear h
    induction l with
    | nil => rfl
    | cons x l ih =>
      rw [List.find?_cons, List.find?_cons, hp x List.mem_cons_self,
        ih fun y hy => hp y (List.mem_cons_of_mem x hy)]
  rw [List.find?_append, hcongr]
  rfl

namespace Grows

variable {ex : Nat → Prop} {new new' : List Nat}

theorem refl (hc : Context) : Grows host ex hc hc [] where
  loaded := (List.append_nil _).symm
  asked := (List.append_nil _).symm
  next := Nat.le_refl _
  fresh := fun _ hx => absurd hx List.not_mem_nil
  names := List.nodup_nil
  unknown := fun _ hx => absurd hx List.not_mem_nil
  same := fun _ _ _ => rfl
  static := fun _ _ => rfl
  bound := fun _ hx => absurd hx List.not_mem_nil

theorem mono {ex' : Nat → Prop} (hex : ∀ x, ex x → ex' x) (h : Grows host ex c c' new) :
    Grows host ex' c c' new :=
  ⟨h.loaded, h.asked, h.next, h.fresh, h.names, h.unknown, fun x hx hne => h.same x hx fun he => hne (hex x he),
    h.static, h.bound⟩

theorem numbered (h : Grows host ex c c' new) (hc : Numbered c) : Numbered c' := by
  intro x hx
  rw [h.loaded, List.mem_append] at hx
  rcases hx with hx | hx
  · exact Nat.lt_of_lt_of_le (hc x hx) h.next
  · exact (h.fresh x hx).2

/-- A name that finds a module finds it still. -/
theorem find (h : Grows host ex c c' new) (hc : Numbered c) {name : Text} {m : Nat}
    (hfind : c.findLoadedModule name = some m) : c'.findLoadedModule name = some m := by
  unfold Context.findLoadedModule at hfind ⊢
  rw [h.loaded]
  refine find_append_of_some hfind fun x hx => ?_
  have hname := h.static x (hc x hx)
  unfold Context.nameOf at hname
  rw [hname]

theorem loadedNames (h : Grows host ex c c' new) (hc : Numbered c) :
    c'.loadedNames = c.loadedNames ++ new.map c'.nameOf := by
  unfold Context.loadedNames
  rw [h.loaded, List.map_append]
  congr 1
  exact List.map_congr_left fun x hx => h.static x (hc x hx)

theorem boundTo (h : Grows host ex c c' new) (hc : Numbered c) {m k : Nat} (hm : m < c.next) (hex : ¬ ex m)
    (hbound : BoundTo host c m k) : BoundTo host c' m k := by
  have hsame := h.same m hm hex
  refine ⟨by rw [hsame]; exact hbound.length, fun i hi => ?_⟩
  obtain ⟨name, cname, hname, hconvert, hfind⟩ := hbound.found i hi
  refine ⟨name, cname, by rw [hsame]; exact hname, ?_, ?_⟩
  · rw [h.static m hm]
    exact hconvert
  · have hlt : i < (c.defs m).modules.length := by
      rw [hbound.length]
      exact hi
    rw [List.getElem?_eq_getElem hlt] at hfind
    rw [hsame, List.getElem?_eq_getElem hlt]
    exact h.find hc hfind

theorem stays (h : Grows host ex c c' new) (hc : Numbered c) {m : Nat} (hm : m < c.next) (hex : ¬ ex m)
    (hbound : Bound host c m) : Bound host c' m := by
  have hsame := h.same m hm hex
  refine ⟨by rw [hsame]; exact hbound.resolved, ?_⟩
  rw [hsame]
  exact h.boundTo hc hm hex hbound.requests

theorem trans (hc : Numbered c) (hex : ∀ x, ex x → x < c.next) (h : Grows host ex c c₁ new)
    (h' : Grows host ex c₁ c' new') : Grows host ex c c' (new ++ new') := by
  have hmap : new.map c'.nameOf = new.map c₁.nameOf :=
    List.map_congr_left fun x hx => h'.static x (h.fresh x hx).2
  have hnames := h.loadedNames hc
  exact {
    loaded := by rw [h'.loaded, h.loaded, List.append_assoc]
    asked := by rw [h'.asked, h.asked, List.map_append, hmap, List.append_assoc]
    next := Nat.le_trans h.next h'.next
    fresh := fun x hx => by
      rcases List.mem_append.mp hx with hx | hx
      · exact ⟨(h.fresh x hx).1, Nat.lt_of_lt_of_le (h.fresh x hx).2 h'.next⟩
      · exact ⟨Nat.le_trans h.next (h'.fresh x hx).1, (h'.fresh x hx).2⟩
    names := by
      rw [List.map_append, hmap]
      refine List.nodup_append.mpr ⟨h.names, h'.names, fun a ha b hb heq => ?_⟩
      obtain ⟨x, hx, rfl⟩ := List.mem_map.mp hb
      refine h'.unknown x hx ?_
      rw [hnames]
      exact List.mem_append_right _ (heq ▸ ha)
    unknown := fun x hx => by
      rcases List.mem_append.mp hx with hx | hx
      · rw [h'.static x (h.fresh x hx).2]
        exact h.unknown x hx
      · have hnot := h'.unknown x hx
        rw [hnames] at hnot
        exact fun hmem => hnot (List.mem_append_left _ hmem)
    same := fun x hx hne => by
      rw [h'.same x (Nat.lt_of_lt_of_le hx h.next) hne, h.same x hx hne]
    static := fun x hx => by rw [h'.static x (Nat.lt_of_lt_of_le hx h.next), h.static x hx]
    bound := fun x hx => by
      rcases List.mem_append.mp hx with hx | hx
      · refine h'.stays (h.numbered hc) (h.fresh x hx).2 (fun hexx => ?_) (h.bound x hx)
        have hlt := hex x hexx
        have hge := (h.fresh x hx).1
        omega
      · exact h'.bound x hx }

end Grows

/-! ## The recursion -/

/-- Modules other than `m` have been resolved, or are on the way. -/
structure Ready (c : Context) (m : Nat) : Prop where
  mem : m ∈ c.loadedModules
  numbered : Numbered c
  resolved : ∀ x ∈ c.loadedModules, x ≠ m → (c.defs x).resolved = true
  unbound : (c.defs m).modules = []
  unresolved : (c.defs m).resolved = false

/-- What is known of the recursive call: it returns for modules that are resolved, and loads those that are new. -/
structure Resolves (host : Host) (U : List Text) (fuel : Nat)
    (resolve : Nat → Context → Option (Bool × Context)) : Prop where
  done : ∀ c m, m ∈ c.loadedModules → (c.defs m).resolved = true → resolve m c = some (true, c)
  load : ∀ c m, Ready c m → unvisited U c.loadedNames < fuel → ∃ ok c', resolve m c = some (ok, c') ∧
    (ok = true → ∃ new, Grows host (· = m) c c' new ∧ Bound host c' m)

variable {U : List Text} {fuel : Nat} {resolve : Nat → Context → Option (Bool × Context)}

theorem find_mem {name : Text} {m : Nat} (h : c.findLoadedModule name = some m) :
    m ∈ c.loadedModules ∧ c.nameOf m = name :=
  ⟨List.mem_of_find?_eq_some h, by simpa [Context.nameOf] using List.find?_some h⟩

theorem not_mem_loadedNames {name : Text} (h : c.findLoadedModule name = none) : name ∉ c.loadedNames := by
  intro hmem
  obtain ⟨x, hx, hname⟩ := List.mem_map.mp hmem
  have hnone := List.find?_eq_none.mp h x hx
  exact hnone (decide_eq_true hname)

theorem newModuleDef_defs_self (name : Text) (script : Script) :
    (c.newModuleDef name script).defs c.next = .new name script := Function.update_self ..

theorem newModuleDef_defs {name : Text} {script : Script} {x : Nat} (hx : x ≠ c.next) :
    (c.newModuleDef name script).defs x = c.defs x := Function.update_of_ne hx ..

theorem loadedNames_newModuleDef (hc : Numbered c) (name : Text) (script : Script) :
    (c.newModuleDef name script).loadedNames = c.loadedNames ++ [name] := by
  unfold Context.loadedNames
  show (c.loadedModules ++ [c.next]).map _ = _
  rw [List.map_append]
  congr 1
  · refine List.map_congr_left fun x hx => ?_
    unfold Context.nameOf
    rw [newModuleDef_defs (Nat.ne_of_lt (hc x hx))]
  · show [(c.newModuleDef name script).nameOf c.next] = [name]
    unfold Context.nameOf
    rw [newModuleDef_defs_self]
    rfl

theorem ready_newModuleDef (hc : Numbered c) (hresolved : ∀ x ∈ c.loadedModules, (c.defs x).resolved = true)
    (name : Text) (script : Script) : Ready (c.newModuleDef name script) c.next where
  mem := List.mem_append_right _ (List.mem_singleton_self _)
  numbered := fun x hx => by
    rcases List.mem_append.mp hx with hx | hx
    · exact Nat.lt_succ_of_lt (hc x hx)
    · exact Nat.lt_succ_of_le (Nat.le_of_eq (List.mem_singleton.mp hx))
  resolved := fun x hx hne => by
    rcases List.mem_append.mp hx with hx | hx
    · rw [newModuleDef_defs hne]
      exact hresolved x hx
    · exact absurd (List.mem_singleton.mp hx) hne
  unbound := by rw [newModuleDef_defs_self]; rfl
  unresolved := by rw [newModuleDef_defs_self]; rfl

theorem Grows.nameOf_new {cname : Text} {script : Script} {new : List Nat}
    (h : Grows host (· = c.next) ({ c with asked := c.asked ++ [cname] }.newModuleDef cname script) c' new) :
    c'.nameOf c.next = cname := by
  rw [h.static c.next (Nat.lt_succ_self _)]
  show (({ c with asked := c.asked ++ [cname] }.newModuleDef cname script).defs c.next).moduleName = cname
  rw [newModuleDef_defs_self (c := { c with asked := c.asked ++ [cname] })]
  rfl

/-- The name of a module that was added finds it, since no module that was there before has this name. -/
theorem Grows.find_first {ex : Nat → Prop} {x : Nat} {new : List Nat} (h : Grows host ex c c' (x :: new)) (hc : Numbered c) :
    c'.findLoadedModule (c'.nameOf x) = some x := by
  have hnone : c.loadedModules.find? (fun y => decide ((c'.defs y).moduleName = c'.nameOf x)) = none := by
    refine List.find?_eq_none.mpr fun y hy hname => h.unknown x List.mem_cons_self ?_
    have hstatic := h.static y (hc y hy)
    exact List.mem_map.mpr ⟨y, hy, hstatic.symm.trans (of_decide_eq_true hname)⟩
  unfold Context.findLoadedModule
  rw [h.loaded, List.find?_append, hnone, Option.none_or]
  exact List.find?_cons_of_pos (p := fun y => decide ((c'.defs y).moduleName = c'.nameOf x)) (decide_eq_true rfl)

/-- Where all modules are resolved, they still are when modules that are bound have been added. -/
theorem Grows.resolved {new : List Nat} (h : Grows host (fun _ => False) c c' new) (hc : Numbered c)
    (hresolved : ∀ x ∈ c.loadedModules, (c.defs x).resolved = true) : ∀ x ∈ c'.loadedModules, (c'.defs x).resolved = true := by
  intro x hx
  rw [h.loaded] at hx
  rcases List.mem_append.mp hx with hx | hx
  · rw [h.same x (hc x hx) id]
    exact hresolved x hx
  · exact (h.bound x hx).resolved

/-- What a new module adds, with what it requests. -/
theorem grows_newModuleDef (hc : Numbered c) {cname : Text} {script : Script} {new : List Nat}
    (hnew : cname ∉ c.loadedNames)
    (h : Grows host (· = c.next) ({ c with asked := c.asked ++ [cname] }.newModuleDef cname script) c' new)
    (hbound : Bound host c' c.next) : Grows host (fun _ => False) c c' (c.next :: new) := by
  have hnumbered : Numbered { c with asked := c.asked ++ [cname] } := hc
  have hself : c'.nameOf c.next = cname := h.nameOf_new
  have hunknown : ∀ x ∈ new, c'.nameOf x ∉ c.loadedNames ++ [cname] := by
    intro x hx
    have hx := h.unknown x hx
    rwa [loadedNames_newModuleDef hnumbered] at hx
  exact {
    loaded := by
      rw [h.loaded]
      show (c.loadedModules ++ [c.next]) ++ new = _
      rw [List.append_assoc, List.singleton_append]
    asked := by
      rw [h.asked, List.map_cons, hself]
      show (c.asked ++ [cname]) ++ _ = _
      rw [List.append_assoc, List.singleton_append]
    next := Nat.le_trans (Nat.le_succ _) h.next
    fresh := fun x hx => by
      rcases List.mem_cons.mp hx with rfl | hx
      · exact ⟨Nat.le_refl _, h.next⟩
      · exact ⟨Nat.le_trans (Nat.le_succ _) (h.fresh x hx).1, (h.fresh x hx).2⟩
    names := by
      rw [List.map_cons, hself, List.nodup_cons]
      refine ⟨fun hmem => ?_, h.names⟩
      obtain ⟨x, hx, hname⟩ := List.mem_map.mp hmem
      exact hunknown x hx (by rw [hname]; simp)
    unknown := fun x hx => by
      rcases List.mem_cons.mp hx with rfl | hx
      · rw [hself]
        exact hnew
      · exact fun hmem => hunknown x hx (List.mem_append_left _ hmem)
    same := fun x hx _ => by
      have hne : x ≠ c.next := Nat.ne_of_lt hx
      rw [h.same x (Nat.lt_succ_of_lt hx) hne]
      exact newModuleDef_defs (c := { c with asked := c.asked ++ [cname] }) hne
    static := fun x hx => by
      have hne : x ≠ c.next := Nat.ne_of_lt hx
      rw [h.static x (Nat.lt_succ_of_lt hx)]
      show (({ c with asked := c.asked ++ [cname] }.newModuleDef cname script).defs x).moduleName = _
      rw [newModuleDef_defs (c := { c with asked := c.asked ++ [cname] }) hne]
      rfl
    bound := fun x hx => by
      rcases List.mem_cons.mp hx with rfl | hx
      · exact hbound
      · exact h.bound x hx }

/-! ## Changes to one module -/

variable {m : Nat} {d : ModuleDef}

theorem Context.read_eq_some : c.read m = some d ↔ m ∈ c.loadedModules ∧ c.defs m = d := by
  unfold Context.read
  split
  · rename_i hm
    rw [Option.some.injEq]
    exact (and_iff_right hm).symm
  · rename_i hm
    exact iff_of_false (fun h => by cases h) fun h => hm h.1

theorem write_defs_self : (c.write m d).defs m = d := Function.update_self ..

theorem write_defs {x : Nat} (hx : x ≠ m) : (c.write m d).defs x = c.defs x := Function.update_of_ne hx ..

theorem nameOf_write (hname : d.moduleName = c.nameOf m) (x : Nat) : (c.write m d).nameOf x = c.nameOf x := by
  unfold Context.nameOf
  by_cases hx : x = m
  · rw [hx, write_defs_self]
    exact hname
  · rw [write_defs hx]

theorem find_write (hname : d.moduleName = c.nameOf m) (name : Text) :
    (c.write m d).findLoadedModule name = c.findLoadedModule name := by
  have hnames : ∀ x, ((c.write m d).defs x).moduleName = (c.defs x).moduleName := nameOf_write hname
  unfold Context.findLoadedModule
  show c.loadedModules.find? (fun x => decide (((c.write m d).defs x).moduleName = name)) = _
  simp only [hnames]

theorem loadedNames_write (hname : d.moduleName = c.nameOf m) : (c.write m d).loadedNames = c.loadedNames :=
  List.map_congr_left fun x _ => nameOf_write hname x

theorem resolved_write (hd : d.resolved = true)
    (hresolved : ∀ x ∈ c.loadedModules, x ≠ m → (c.defs x).resolved = true) :
    ∀ x ∈ (c.write m d).loadedModules, ((c.write m d).defs x).resolved = true := by
  intro x hx
  by_cases hxm : x = m
  · rw [hxm, write_defs_self]
    exact hd
  · rw [write_defs hxm]
    exact hresolved x hx hxm

/-- One more request is bound, to what its name finds. -/
theorem BoundTo.snoc {n m1 : Nat} {name cname : Text} (hb : BoundTo host c m n)
    (hrequest : (c.defs m).script.reqModuleEntries[n]? = some name)
    (hconvert : host.convertModuleName (c.nameOf m) name = some cname) (hfind : c.findLoadedModule cname = some m1) :
    BoundTo host (c.write m { c.defs m with modules := (c.defs m).modules ++ [m1] }) m (n + 1) := by
  let d' : ModuleDef := { c.defs m with modules := (c.defs m).modules ++ [m1] }
  have hname' : d'.moduleName = c.nameOf m := rfl
  show BoundTo host (c.write m d') m (n + 1)
  refine ⟨?_, fun i hi => ?_⟩
  · rw [write_defs_self]
    show ((c.defs m).modules ++ [m1]).length = _
    rw [List.length_append, hb.length]
    rfl
  · rw [write_defs_self, nameOf_write hname']
    simp only [find_write hname']
    by_cases hlast : i = n
    · refine ⟨name, cname, hlast ▸ hrequest, hconvert, ?_⟩
      rw [hfind]
      show _ = ((c.defs m).modules ++ [m1])[i]?
      rw [hlast, ← hb.length]
      simp
    · have hlt : i < n := by omega
      obtain ⟨x, cx, hx, hcx, hf⟩ := hb.found i hlt
      refine ⟨x, cx, hx, hcx, hf.trans ?_⟩
      show _ = ((c.defs m).modules ++ [m1])[i]?
      rw [List.getElem?_append_left (hb.length.symm ▸ hlt)]

theorem Bound.write (hname : d.moduleName = c.nameOf m) {x : Nat} (hx : x ≠ m) (h : Bound host c x) :
    Bound host (c.write m d) x := by
  have hsame : (c.write m d).defs x = c.defs x := write_defs hx
  refine ⟨by rw [hsame]; exact h.resolved, by rw [hsame]; exact h.requests.length, fun i hi => ?_⟩
  rw [hsame] at hi ⊢
  rw [nameOf_write hname]
  simp only [find_write hname]
  exact h.requests.found i hi

/-- The last context is changed in a module that may change. -/
theorem Grows.write_right {ex : Nat → Prop} {new : List Nat} (h : Grows host ex c c' new) (hm : m < c.next)
    (hex : ex m) (hname : d.moduleName = c'.nameOf m) : Grows host ex c (c'.write m d) new where
  loaded := h.loaded
  asked := by
    rw [List.map_congr_left fun x _ => nameOf_write hname x]
    exact h.asked
  next := h.next
  fresh := h.fresh
  names := by
    rw [List.map_congr_left fun x _ => nameOf_write hname x]
    exact h.names
  unknown := fun x hx => by
    rw [nameOf_write hname]
    exact h.unknown x hx
  same := fun x hx hne => by
    have hxm : x ≠ m := fun heq => hne (heq ▸ hex)
    rw [write_defs hxm]
    exact h.same x hx hne
  static := fun x hx => by
    rw [nameOf_write hname]
    exact h.static x hx
  bound := fun x hx => (h.bound x hx).write hname fun heq => by
    have hge := (h.fresh x hx).1
    omega

/-- The first context is changed in a module that may change. -/
theorem Grows.of_write {new : List Nat} (h : Grows host (· = m) (c.write m d) c' new)
    (hname : d.moduleName = c.nameOf m) : Grows host (· = m) c c' new where
  loaded := h.loaded
  asked := h.asked
  next := h.next
  fresh := h.fresh
  names := h.names
  unknown := fun x hx => by
    rw [← loadedNames_write hname]
    exact h.unknown x hx
  same := fun x hx hne => by rw [h.same x hx hne, write_defs hne]
  static := fun x hx => by rw [h.static x hx, nameOf_write hname]
  bound := h.bound

/-! ## One request -/

/-- What the loader makes of a name. -/
theorem hostResolve_grows (hresolve : Resolves host U fuel resolve)
    (hU : ∀ name script, host.getModuleScript name = some script → name ∈ U) (hc : Numbered c)
    (hresolved : ∀ x ∈ c.loadedModules, (c.defs x).resolved = true) (hfuel : unvisited U c.loadedNames < fuel + 1)
    (cname : Text) :
    ∃ r c', hostResolve host resolve c cname = some (r, c') ∧
      ∀ m1, r = some m1 → c'.findLoadedModule cname = some m1 ∧ ∃ new, Grows host (fun _ => False) c c' new := by
  unfold hostResolve
  cases hfind : c.findLoadedModule cname with
  | some m1 =>
    refine ⟨some m1, c, rfl, fun m2 heq => ?_⟩
    cases heq
    exact ⟨hfind, [], Grows.refl c⟩
  | none =>
    simp only
    cases hscript : host.getModuleScript cname with
    | none => exact ⟨none, _, rfl, fun _ heq => by cases heq⟩
    | some script =>
      have hnew := not_mem_loadedNames hfind
      have hnumbered : Numbered { c with asked := c.asked ++ [cname] } := hc
      have hfewer : unvisited U ({ c with asked := c.asked ++ [cname] }.newModuleDef cname script).loadedNames <
          fuel := by
        rw [loadedNames_newModuleDef hnumbered]
        have hlt := unvisited_lt (List.subset_append_left c.loadedNames [cname]) (hU cname script hscript) hnew
          (by simp)
        show unvisited U (c.loadedNames ++ [cname]) < fuel
        omega
      obtain ⟨ok, c', hgo, hload⟩ :=
        hresolve.load _ _ (ready_newModuleDef hnumbered hresolved cname script) hfewer
      show ∃ r c'', (resolve c.next ({ c with asked := c.asked ++ [cname] }.newModuleDef cname script)).bind _ =
        some (r, c'') ∧ _
      rw [hgo]
      cases ok with
      | false => exact ⟨none, _, rfl, fun _ heq => by cases heq⟩
      | true =>
        refine ⟨some c.next, c', rfl, fun m1 heq => ?_⟩
        cases heq
        obtain ⟨new, hgrows, hbound⟩ := hload rfl
        have hall := grows_newModuleDef hc hnew hgrows hbound
        refine ⟨?_, _, hall⟩
        have hfirst := hall.find_first hc
        rw [hgrows.nameOf_new] at hfirst
        exact hfirst

/-- The requests that are left, when those before them are bound. -/
theorem resolveRequests_grows (hresolve : Resolves host U fuel resolve)
    (hU : ∀ name script, host.getModuleScript name = some script → name ∈ U) {before rest : List Text}
    (hrequests : (c.defs m).script.reqModuleEntries = before ++ rest) (hmem : m ∈ c.loadedModules)
    (hc : Numbered c) (hresolved : ∀ x ∈ c.loadedModules, (c.defs x).resolved = true)
    (hbound : BoundTo host c m before.length) (hfuel : unvisited U c.loadedNames < fuel + 1) :
    ∃ ok c', resolveRequests host resolve m (c.nameOf m) rest c = some (ok, c') ∧
      (ok = true → ∃ new, Grows host (· = m) c c' new ∧ Bound host c' m) := by
  induction rest generalizing c before with
  | nil =>
    refine ⟨true, c, rfl, fun _ => ⟨[], Grows.refl c, hresolved m hmem, ?_⟩⟩
    rw [hrequests, List.append_nil]
    exact hbound
  | cons name rest ih =>
    unfold resolveRequests
    cases hconvert : host.convertModuleName (c.nameOf m) name with
    | none => exact ⟨false, c, rfl, fun hok => absurd hok Bool.false_ne_true⟩
    | some cname =>
      obtain ⟨r, c₁, hgo, hfound⟩ := hostResolve_grows hresolve hU hc hresolved hfuel cname
      show ∃ ok c', (hostResolve host resolve c cname).bind _ = some (ok, c') ∧ _
      rw [hgo]
      cases r with
      | none => exact ⟨false, c₁, rfl, fun hok => absurd hok Bool.false_ne_true⟩
      | some m1 =>
        obtain ⟨hfind, new, hgrows⟩ := hfound m1 rfl
        have hlt : m < c.next := hc m hmem
        have hsame : c₁.defs m = c.defs m := hgrows.same m hlt id
        have hnameOf : c₁.nameOf m = c.nameOf m := hgrows.static m hlt
        have hmem₁ : m ∈ c₁.loadedModules := by
          rw [hgrows.loaded]
          exact List.mem_append_left _ hmem
        have hresolved₁ := hgrows.resolved hc hresolved
        let d' : ModuleDef := { c₁.defs m with modules := (c₁.defs m).modules ++ [m1] }
        have hname' : d'.moduleName = c₁.nameOf m := rfl
        have hresolved₂ : ∀ x ∈ (c₁.write m d').loadedModules, ((c₁.write m d').defs x).resolved = true :=
          resolved_write (hresolved₁ m hmem₁) fun x hx _ => hresolved₁ x hx
        have hdone := hresolve.done (c₁.write m d') m1 (find_mem hfind).1 (hresolved₂ m1 (find_mem hfind).1)
        have hgrows₂ : Grows host (· = m) c (c₁.write m d') new :=
          (hgrows.mono fun _ hf => hf.elim).write_right hlt rfl hname'
        have hnumbered₂ := hgrows₂.numbered hc
        have hbound₂ : BoundTo host (c₁.write m d') m (before ++ [name]).length := by
          have hrequest : (c₁.defs m).script.reqModuleEntries[before.length]? = some name := by
            rw [hsame, hrequests]
            simp
          rw [List.length_append]
          exact (hgrows.boundTo hc hlt id hbound).snoc hrequest (hnameOf.symm ▸ hconvert) hfind
        have hrequests₂ : ((c₁.write m d').defs m).script.reqModuleEntries = (before ++ [name]) ++ rest := by
          rw [write_defs_self, List.append_assoc]
          show (c₁.defs m).script.reqModuleEntries = _
          rw [hsame]
          exact hrequests
        have hfuel₂ : unvisited U (c₁.write m d').loadedNames < fuel + 1 := by
          have hsub : c.loadedNames ⊆ (c₁.write m d').loadedNames := by
            rw [hgrows₂.loadedNames hc]
            exact List.subset_append_left _ _
          have hle := unvisited_le (U := U) hsub
          omega
        obtain ⟨ok, c', hgo', hload⟩ := ih hrequests₂ hmem₁ hnumbered₂ hresolved₂ hbound₂ hfuel₂
        refine ⟨ok, c', ?_, fun hok => ?_⟩
        · show (c₁.read m).bind _ = _
          unfold Context.read
          rw [if_pos hmem₁]
          show (resolve m1 (c₁.write m d')).bind _ = _
          rw [hdone]
          show resolveRequests host resolve m (c.nameOf m) rest (c₁.write m d') = _
          rw [← hgo', nameOf_write hname', hnameOf]
        · obtain ⟨new', hgrows', hbound'⟩ := hload hok
          exact ⟨new ++ new', hgrows₂.trans hc (fun x hx => hx ▸ hlt) hgrows', hbound'⟩

/-! ## A module -/

theorem resolveModule_grows (hU : ∀ name script, host.getModuleScript name = some script → name ∈ U) (fuel : Nat) :
    Resolves host U fuel (resolveModule host (fuel + 1)) := by
  have hdone : ∀ fuel c m, m ∈ c.loadedModules → (c.defs m).resolved = true →
      resolveModule host (fuel + 1) m c = some (true, c) := by
    intro fuel c m hmem hres
    unfold resolveModule Context.read
    rw [if_pos hmem]
    exact if_pos hres
  induction fuel with
  | zero => exact ⟨hdone 0, fun c m _ hfuel => absurd hfuel (Nat.not_lt_zero _)⟩
  | succ fuel ih =>
    refine ⟨hdone (fuel + 1), fun c m hready hfuel => ?_⟩
    let d' : ModuleDef := { c.defs m with resolved := true }
    have hname : d'.moduleName = c.nameOf m := rfl
    have hresolved : ∀ x ∈ (c.write m d').loadedModules, ((c.write m d').defs x).resolved = true :=
      resolved_write rfl hready.resolved
    have hbound : BoundTo host (c.write m d') m ([] : List Text).length := by
      refine ⟨?_, fun _ hi => absurd hi (Nat.not_lt_zero _)⟩
      rw [write_defs_self]
      exact congrArg List.length hready.unbound
    have hrequests : ((c.write m d').defs m).script.reqModuleEntries = [] ++ (c.defs m).script.reqModuleEntries := by
      rw [write_defs_self]
      rfl
    obtain ⟨ok, c', hgo, hload⟩ := resolveRequests_grows ih hU hrequests hready.mem hready.numbered hresolved hbound
      (by rw [loadedNames_write hname]; exact hfuel)
    refine ⟨ok, c', ?_, fun hok => ?_⟩
    · unfold resolveModule Context.read
      rw [if_pos hready.mem]
      show (if (c.defs m).resolved = true then _ else _) = _
      rw [hready.unresolved, if_neg (by decide)]
      rw [nameOf_write hname] at hgo
      exact hgo
    · obtain ⟨new, hgrows, hb⟩ := hload hok
      exact ⟨new, hgrows.of_write hname, hb⟩

/-- **Loading a script**, however the modules request each other. Where the scripts are of finitely many names it
ends. If it succeeds, the modules that were added have different names, none of them loaded before, and these are
the names that the loader was called with, each once; and every request of every module, old and new, refers to the
module that its name finds. -/
theorem load_bound (hU : ∀ name script, host.getModuleScript name = some script → name ∈ U) (hc : Numbered c)
    (hbound : ∀ x ∈ c.loadedModules, Bound host c x) (hfuel : U.length + 1 < fuel) (name : Text) (script : Script) :
    ∃ ok c', resolveModule host fuel c.next (c.newModuleDef name script) = some (ok, c') ∧
      (ok = true → ∃ new, c'.loadedModules = c.loadedModules ++ c.next :: new ∧
        c'.asked = c.asked ++ new.map c'.nameOf ∧ (new.map c'.nameOf).Nodup ∧
        (∀ x ∈ new, c'.nameOf x ∉ name :: c.loadedNames) ∧ ∀ x ∈ c'.loadedModules, Bound host c' x) := by
  have hready := ready_newModuleDef hc (fun x hx => (hbound x hx).resolved) name script
  obtain ⟨k, rfl⟩ : ∃ k, fuel = k + 1 := ⟨fuel - 1, by omega⟩
  have hle := unvisited_le_length U (c.newModuleDef name script).loadedNames
  obtain ⟨ok, c', hgo, hload⟩ := (resolveModule_grows hU k).load _ _ hready (by omega)
  refine ⟨ok, c', hgo, fun hok => ?_⟩
  obtain ⟨new, hgrows, hself⟩ := hload hok
  refine ⟨new, ?_, hgrows.asked, hgrows.names, fun x hx => ?_, fun x hx => ?_⟩
  · rw [hgrows.loaded]
    show (c.loadedModules ++ [c.next]) ++ new = _
    rw [List.append_assoc, List.singleton_append]
  · have hunknown := hgrows.unknown x hx
    rw [loadedNames_newModuleDef hc, List.mem_append, List.mem_singleton] at hunknown
    rw [List.mem_cons]
    exact fun hmem => hunknown hmem.symm
  · rw [hgrows.loaded] at hx
    rcases List.mem_append.mp hx with hx | hx
    · rcases List.mem_append.mp hx with hx | hx
      · -- a module that was there before
        have hlt : x < c.next := hc x hx
        have hne : x ≠ c.next := Nat.ne_of_lt hlt
        refine hgrows.stays hready.numbered (Nat.lt_succ_of_lt hlt) hne ?_
        have hb := hbound x hx
        have hsame : (c.newModuleDef name script).defs x = c.defs x := newModuleDef_defs hne
        refine ⟨by rw [hsame]; exact hb.resolved, by rw [hsame]; exact hb.requests.length, fun i hi => ?_⟩
        rw [hsame] at hi ⊢
        obtain ⟨n, cn, hn, hcn, hfind⟩ := hb.requests.found i hi
        have hlength : i < (c.defs x).modules.length := by rw [hb.requests.length]; exact hi
        refine ⟨n, cn, hn, ?_, ?_⟩
        · unfold Context.nameOf
          rw [hsame]
          exact hcn
        · rw [List.getElem?_eq_getElem hlength] at hfind ⊢
          refine find_append_of_some hfind fun y hy => ?_
          rw [newModuleDef_defs (Nat.ne_of_lt (hc y hy))]
      · exact List.mem_singleton.mp hx ▸ hself
    · exact hgrows.bound x hx

/-- Scripts `a` and `b` that request each other. -/
def sampleCircle : Host where
  convertModuleName := fun _ name => some name
  getModuleScript := fun name =>
    if name = ModuleNames.text ['a'] then some (.ofRequests [ModuleNames.text ['b']])
    else if name = ModuleNames.text ['b'] then some (.ofRequests [ModuleNames.text ['a']])
    else none
  throws := fun _ => false

theorem load_bound_circle : ∃ ok c', resolveModule sampleCircle 4 0
      (Context.init.newModuleDef (ModuleNames.text ['a']) (.ofRequests [ModuleNames.text ['b']])) = some (ok, c') ∧
    (ok = true → ∃ new, c'.loadedModules = [] ++ 0 :: new ∧ c'.asked = [] ++ new.map c'.nameOf ∧
      (new.map c'.nameOf).Nodup ∧ (∀ x ∈ new, c'.nameOf x ∉ [ModuleNames.text ['a']]) ∧
      ∀ x ∈ c'.loadedModules, Bound sampleCircle c' x) := by
  have hnames : ∀ name script, sampleCircle.getModuleScript name = some script →
      name ∈ [ModuleNames.text ['a'], ModuleNames.text ['b']] := by
    intro name script hscript
    unfold sampleCircle at hscript
    simp only at hscript
    split at hscript
    · rename_i ha
      rw [ha]
      decide
    · split at hscript
      · rename_i hb
        rw [hb]
        decide
      · cases hscript
  have hnumbered : Numbered .init := fun _ hx => absurd hx List.not_mem_nil
  exact load_bound hnames hnumbered (fun _ hx => absurd hx List.not_mem_nil) (by decide) (ModuleNames.text ['a'])
    (.ofRequests [ModuleNames.text ['b']])

end QuickJSBridge.Es6
