import QuickJSBridge.Engine.ModuleExports
import Mathlib.Data.List.Nodup

/-!
# Module namespaces

The namespace of a module has its exports as properties. `get_exported_names` collects the names, through the star
exports, and notes for which no search is needed; `js_build_module_ns` resolves the others, and leaves out those
that are ambiguous.

* `Listed` — the names that a module exports itself or through star exports, whether or not they resolve;
* `Collected` — what a walk has collected; `getExportedNames_collected`;
* `buildModuleNs_right` — a namespace has the names under which the module exports one binding.
-/

namespace QuickJSBridge.Es6

open Visited

variable {c : Context}

/-! ## The names -/

/-- The export entries of `m`, or of a module that it exports everything from, have `name`. -/
inductive Listed (c : Context) : Nat → Text → Prop where
  | own {m : Nat} {name : Text} {me : ExportEntry} (hme : me ∈ (c.defs m).script.exportEntries)
      (hname : me.exportName = name) : Listed c m name
  | star {m : Nat} {name : Text} {i m1 : Nat} (hname : name ≠ atomDefault)
      (hi : i ∈ (c.defs m).script.starExportEntries) (hm1 : (c.defs m).modules[i]? = some m1)
      (hrest : Listed c m1 name) : Listed c m name

theorem exportName_of_find {d : ModuleDef} {name : Text} {me : ExportEntry}
    (h : d.findExportEntry name = some me) : me.exportName = name := by
  simpa using List.find?_some h

theorem Provides.listed {m m' : Nat} {name : Text} {me' : ExportEntry} (h : Provides c m name m' me') :
    Listed c m name := by
  induction h with
  | «local» hfind _ => exact .own (mem_of_findExportEntry hfind) (exportName_of_find hfind)
  | «namespace» hfind _ _ => exact .own (mem_of_findExportEntry hfind) (exportName_of_find hfind)
  | indirect hfind _ _ _ _ _ => exact .own (mem_of_findExportEntry hfind) (exportName_of_find hfind)
  | star _ hname hi hm1 _ ih => exact .star hname hi hm1 ih

/-- The names of entries are distinct, so the one that is found is the only one. -/
theorem find_of_mem {d : ModuleDef} {me : ExportEntry} (h : me ∈ d.script.exportEntries) :
    d.findExportEntry me.exportName = some me := by
  have hnodup := d.script.export_nodup
  unfold ModuleDef.findExportEntry
  cases hfind : d.script.exportEntries.find? fun e => e.exportName = me.exportName with
  | none =>
    have hnone := List.find?_eq_none.mp hfind me h
    simp at hnone
  | some e =>
    have hname : e.exportName = me.exportName := by simpa using List.find?_some hfind
    rw [List.inj_on_of_nodup_map hnodup (List.mem_of_find?_eq_some hfind) h hname]

/-! ## One module -/

def names (l : List ExportedName) : List Text := l.map Prod.fst

theorem any_name_iff {l : List ExportedName} {name : Text} :
    (l.any fun en => decide (en.1 = name)) = true ↔ name ∈ names l := by
  simp [names]

/-- A note is taken back: the names stay. -/
theorem names_clear (l : List ExportedName) (name : Text) :
    names (l.map fun en => if en.1 = name then (en.1, false) else en) = names l := by
  unfold names
  rw [List.map_map]
  refine List.map_congr_left fun en _ => ?_
  show (if en.1 = name then (en.1, false) else en).1 = en.1
  split <;> rfl

theorem mem_addExportedName {fromStar : Bool} {l : List ExportedName} {me : ExportEntry} {name : Text} :
    name ∈ names (addExportedName fromStar l me) ↔
      name ∈ names l ∨ name = me.exportName ∧ ¬ (fromStar = true ∧ name = atomDefault) := by
  unfold addExportedName
  split
  · rename_i hskip
    refine ⟨.inl, fun h => h.resolve_right fun hname => hname.2 ⟨hskip.1, hname.1.trans hskip.2⟩⟩
  · rename_i hskip
    split
    · rename_i hmem
      rw [names_clear]
      exact ⟨.inl, fun h => h.elim id fun hname => hname.1 ▸ any_name_iff.mp hmem⟩
    · unfold names
      rw [List.map_append, List.mem_append]
      show _ ∨ name ∈ [me.exportName] ↔ _
      rw [List.mem_singleton]
      refine or_congr_right ⟨fun hname => ⟨hname, fun hdefault => hskip ?_⟩, fun hname => hname.1⟩
      exact ⟨hdefault.1, hname ▸ hdefault.2⟩

theorem nodup_addExportedName {fromStar : Bool} {l : List ExportedName} {me : ExportEntry}
    (h : (names l).Nodup) : (names (addExportedName fromStar l me)).Nodup := by
  unfold addExportedName
  split
  · exact h
  · split
    · rw [names_clear]
      exact h
    · rename_i hnew
      unfold names
      rw [List.map_append]
      refine List.nodup_append.mpr ⟨h, List.nodup_singleton _, fun a ha b hb heq => hnew ?_⟩
      have hb : b = me.exportName := List.mem_singleton.mp hb
      exact any_name_iff.mpr (hb ▸ heq ▸ ha)

theorem mem_foldl_addExportedName {fromStar : Bool} {mes : List ExportEntry} {l : List ExportedName} {name : Text} :
    name ∈ names (mes.foldl (addExportedName fromStar) l) ↔
      name ∈ names l ∨ (∃ me ∈ mes, me.exportName = name) ∧ ¬ (fromStar = true ∧ name = atomDefault) := by
  induction mes generalizing l with
  | nil => simp
  | cons me mes ih =>
    rw [List.foldl_cons, ih, mem_addExportedName, or_assoc, ← or_and_right]
    refine or_congr_right (and_congr_left fun _ => ?_)
    simp [eq_comm]

theorem nodup_foldl_addExportedName {fromStar : Bool} {mes : List ExportEntry} {l : List ExportedName}
    (h : (names l).Nodup) : (names (mes.foldl (addExportedName fromStar) l)).Nodup := by
  induction mes generalizing l with
  | nil => exact h
  | cons me mes ih => exact ih (nodup_addExportedName h)

/-- No search is needed for a name that the module exports itself, from itself. -/
theorem fast_foldl_addExportedName {fromStar : Bool} {mes : List ExportEntry} {l : List ExportedName} {name : Text}
    (h : (name, true) ∈ mes.foldl (addExportedName fromStar) l) :
    (name, true) ∈ l ∨ fromStar = false ∧ ∃ me ∈ mes, me.exportName = name ∧ me.exportType = .local := by
  induction mes generalizing l with
  | nil => exact .inl h
  | cons me mes ih =>
    rcases ih h with hmem | ⟨hstar, e, he, hname⟩
    · unfold addExportedName at hmem
      split at hmem
      · exact .inl hmem
      · split at hmem
        · obtain ⟨en, hen, heq⟩ := List.mem_map.mp hmem
          split at heq
          · cases heq
          · exact .inl (heq ▸ hen)
        · rcases List.mem_append.mp hmem with hmem | hmem
          · exact .inl hmem
          · have heq := List.mem_singleton.mp hmem
            rw [Prod.mk.injEq, eq_comm, eq_comm (a := true), Bool.and_eq_true, decide_eq_true_iff] at heq
            exact .inr ⟨by simpa using heq.2.1, me, List.mem_cons_self, heq.1, heq.2.2⟩
    · exact .inr ⟨hstar, e, List.mem_cons_of_mem me he, hname⟩

/-! ## The walk -/

/-- The names of module `x`, and the modules that it exports everything from, are collected. -/
def Spread (c : Context) (s : ExportNames) (x : Nat) : Prop :=
  (∀ me ∈ (c.defs x).script.exportEntries, me.exportName ≠ atomDefault → me.exportName ∈ names s.exportedNames) ∧
    ∀ i ∈ (c.defs x).script.starExportEntries, ∀ m1, (c.defs x).modules[i]? = some m1 → m1 ∈ s.modules

theorem Spread.mono {s s' : ExportNames} {x : Nat} (hmodules : s.modules ⊆ s'.modules)
    (hnames : names s.exportedNames ⊆ names s'.exportedNames) (h : Spread c s x) : Spread c s' x :=
  ⟨fun me hme hne => hnames (h.1 me hme hne), fun i hi m1 hm1 => hmodules (h.2 i hi m1 hm1)⟩

/-- From `s` to `s'`, with names that have `P`. -/
structure Grown (c : Context) (P : Text → Prop) (s s' : ExportNames) : Prop where
  modules : s.modules ⊆ s'.modules
  kept : names s.exportedNames ⊆ names s'.exportedNames
  nodup : (names s.exportedNames).Nodup → (names s'.exportedNames).Nodup
  listed : ∀ n ∈ names s'.exportedNames, n ∈ names s.exportedNames ∨ P n
  spread : ∀ x ∈ s'.modules, x ∉ s.modules → Spread c s' x

theorem Grown.refl (P : Text → Prop) (s : ExportNames) : Grown c P s s :=
  ⟨List.Subset.refl _, List.Subset.refl _, id, fun _ hn => .inl hn, fun _ hx hxs => absurd hx hxs⟩

theorem Grown.trans {P : Text → Prop} {s s₁ s' : ExportNames} (h : Grown c P s s₁) (h' : Grown c P s₁ s') :
    Grown c P s s' where
  modules := List.Subset.trans h.modules h'.modules
  kept := List.Subset.trans h.kept h'.kept
  nodup := fun hs => h'.nodup (h.nodup hs)
  listed := fun n hn => (h'.listed n hn).elim (h.listed n) .inr
  spread := fun x hx hxs => by
    by_cases hx₁ : x ∈ s₁.modules
    · exact (h.spread x hx₁ hxs).mono h'.modules h'.kept
    · exact h'.spread x hx hx₁

theorem Grown.imp {P Q : Text → Prop} {s s' : ExportNames} (hPQ : ∀ n, P n → Q n) (h : Grown c P s s') :
    Grown c Q s s' :=
  ⟨h.modules, h.kept, h.nodup, fun n hn => (h.listed n hn).imp_right (hPQ n), h.spread⟩

/-- What a walk from `m` has collected. -/
structure Collected (c : Context) (fromStar : Bool) (m : Nat) (s s' : ExportNames) : Prop where
  grown : Grown c (fun n => Listed c m n ∧ (fromStar = true → n ≠ atomDefault)) s s'
  here : m ∈ s'.modules
  own : m ∉ s.modules → fromStar = false →
    ∀ me ∈ (c.defs m).script.exportEntries, me.exportName ∈ names s'.exportedNames
  fast : ∀ n, (n, true) ∈ s'.exportedNames → (n, true) ∈ s.exportedNames ∨
    fromStar = false ∧ ∃ me ∈ (c.defs m).script.exportEntries, me.exportName = n ∧ me.exportType = .local

variable {get : ExportNames → Nat → Option ExportNames}

theorem exportedStars_collected (ih : ∀ s m1 s', get s m1 = some s' → Collected c true m1 s s') {d : ModuleDef}
    {idxs : List Nat} {s s' : ExportNames} (h : exportedStars get d idxs s = some s') :
    Grown c (fun n => n ≠ atomDefault ∧ ∃ i ∈ idxs, ∃ m1, d.modules[i]? = some m1 ∧ Listed c m1 n) s s' ∧
      (∀ i ∈ idxs, ∀ m1, d.modules[i]? = some m1 → m1 ∈ s'.modules) ∧
      ∀ n, (n, true) ∈ s'.exportedNames → (n, true) ∈ s.exportedNames := by
  induction idxs generalizing s with
  | nil =>
    cases h
    exact ⟨Grown.refl _ _, nofun, fun _ hn => hn⟩
  | cons i idxs ihs =>
    unfold exportedStars at h
    obtain ⟨m1, hm1, h⟩ := Option.bind_eq_some_iff.mp h
    obtain ⟨s₁, hs₁, h⟩ := Option.bind_eq_some_iff.mp h
    have hfirst := ih s m1 s₁ hs₁
    obtain ⟨hgrown, hseen, hfast⟩ := ihs h
    refine ⟨(hfirst.grown.imp fun n hn => ?_).trans (hgrown.imp fun n hn => ?_), fun j hj m2 hm2 => ?_, fun n hn => ?_⟩
    · exact ⟨hn.2 rfl, i, List.mem_cons_self, m1, hm1, hn.1⟩
    · obtain ⟨hne, j, hj, m2, hm2, hlisted⟩ := hn
      exact ⟨hne, j, List.mem_cons_of_mem i hj, m2, hm2, hlisted⟩
    · rcases List.mem_cons.mp hj with rfl | hj
      · rw [hm1] at hm2
        cases hm2
        exact hgrown.modules hfirst.here
      · exact hseen j hj m2 hm2
    · exact (hfirst.fast n (hfast n hn)).resolve_right fun hstar => absurd hstar.1 (by decide)

theorem getExportedNames_collected {fuel : Nat} {fromStar : Bool} {s s' : ExportNames} {m : Nat}
    (h : getExportedNames c fuel fromStar s m = some s') : Collected c fromStar m s s' := by
  induction fuel generalizing fromStar s m s' with
  | zero => cases h
  | succ fuel ih =>
    unfold getExportedNames at h
    split at h
    · rename_i hmem
      cases h
      exact ⟨Grown.refl _ _, hmem, fun hnew => absurd hmem hnew, fun _ hn => .inl hn⟩
    · rename_i hnew
      obtain ⟨d, hd, h⟩ := Option.bind_eq_some_iff.mp h
      unfold Context.read at hd
      split at hd
      · cases hd
        obtain ⟨hgrown, hseen, hfast⟩ := exportedStars_collected (fun s m1 s' hgo => ih hgo) h
        -- after the module's own entries, before its star exports
        have hown : ∀ me ∈ (c.defs m).script.exportEntries, ¬ (fromStar = true ∧ me.exportName = atomDefault) →
            me.exportName ∈ names s'.exportedNames := fun me hme hne =>
          hgrown.kept (mem_foldl_addExportedName.mpr (.inr ⟨⟨me, hme, rfl⟩, hne⟩))
        have hhere : m ∈ s'.modules := hgrown.modules (by simp)
        refine ⟨⟨fun x hx => hgrown.modules (List.mem_append_left _ hx),
          fun n hn => hgrown.kept (mem_foldl_addExportedName.mpr (.inl hn)),
          fun hs => hgrown.nodup (nodup_foldl_addExportedName hs), fun n hn => ?_, fun x hx hxs => ?_⟩, hhere,
          fun _ hstar me hme => hown me hme fun hskip => ?_, fun n hn => fast_foldl_addExportedName (hfast n hn)⟩
        · rcases hgrown.listed n hn with hn | ⟨hne, i, hi, m1, hm1, hlisted⟩
          · refine (mem_foldl_addExportedName.mp hn).imp_right fun hn => ?_
            obtain ⟨⟨me, hme, hname⟩, hskip⟩ := hn
            exact ⟨.own hme hname, fun hstar heq => hskip ⟨hstar, heq⟩⟩
          · exact .inr ⟨.star hne hi hm1 hlisted, fun _ => hne⟩
        · by_cases hx₁ : x ∈ s.modules ++ [m]
          · rw [List.mem_append, List.mem_singleton] at hx₁
            rcases hx₁ with hx₁ | rfl
            · exact absurd hx₁ hxs
            · exact ⟨fun me hme hne => hown me hme fun hskip => hne hskip.2, hseen⟩
          · exact hgrown.spread x hx hx₁
        · rw [hstar] at hskip
          exact absurd hskip.1 (by decide)
      · cases hd

/-- The loop over star exports ends when each of their walks does. -/
theorem exportedStars_isSome {get : ExportNames → Nat → Option ExportNames} {d : ModuleDef} {P : ExportNames → Prop}
    {idxs : List Nat} (hmodule : ∀ i ∈ idxs, ∃ m1, d.modules[i]? = some m1 ∧ ∀ s, P s →
      ∃ s', get s m1 = some s' ∧ P s') {s : ExportNames} (hs : P s) : ∃ s', exportedStars get d idxs s = some s' := by
  induction idxs generalizing s with
  | nil => exact ⟨s, rfl⟩
  | cons i idxs ih =>
    obtain ⟨m1, hm1, hget⟩ := hmodule i List.mem_cons_self
    obtain ⟨s₁, hs₁, hP⟩ := hget s hs
    unfold exportedStars
    rw [hm1]
    show ∃ s', (get s m1).bind _ = some s'
    rw [hs₁]
    exact ih (fun j hj => hmodule j (List.mem_cons_of_mem i hj)) hP

/-- The walk ends: with each module there are fewer that it has not come to. -/
theorem getExportedNames_isSome (hclosed : Closed c) {fuel : Nat} {fromStar : Bool} {s : ExportNames} {m : Nat}
    (hm : m ∈ c.loadedModules) (hfuel : unvisited c.loadedModules s.modules < fuel) :
    ∃ s', getExportedNames c fuel fromStar s m = some s' := by
  induction fuel generalizing fromStar s m with
  | zero => exact absurd hfuel (Nat.not_lt_zero _)
  | succ fuel ih =>
    unfold getExportedNames
    by_cases hs : m ∈ s.modules
    · rw [if_pos hs]
      exact ⟨_, rfl⟩
    · rw [if_neg hs, Context.read_of_mem hm]
      have hfewer : unvisited c.loadedModules (s.modules ++ [m]) < fuel := by
        have hlt := unvisited_lt (List.subset_append_left s.modules [m]) hm hs (by simp)
        omega
      refine exportedStars_isSome (P := fun s => unvisited c.loadedModules s.modules < fuel) (fun i hi => ?_) hfewer
      obtain ⟨m1, hm1, hloaded⟩ := hclosed.module hm ((c.defs m).script.star_lt i hi)
      refine ⟨m1, hm1, fun s₁ hs₁ => ?_⟩
      have hget : ∃ s₂, getExportedNames c fuel true s₁ m1 = some s₂ := ih hloaded hs₁
      obtain ⟨s₂, hs₂⟩ := hget
      exact ⟨s₂, hs₂, Nat.lt_of_le_of_lt (unvisited_le (getExportedNames_collected hs₂).grown.modules) hs₁⟩

/-- The names of a namespace before they are resolved. -/
theorem mem_exportedNames_iff {fuel m : Nat} {s : ExportNames}
    (h : getExportedNames c fuel false ⟨[], []⟩ m = some s) {name : Text} :
    name ∈ names s.exportedNames ↔ Listed c m name := by
  have hcollected := getExportedNames_collected h
  have hspread : ∀ x ∈ s.modules, Spread c s x := fun x hx => hcollected.grown.spread x hx List.not_mem_nil
  have hstar : ∀ {x n}, Listed c x n → x ∈ s.modules → n ≠ atomDefault → n ∈ names s.exportedNames := by
    intro x n hlisted
    induction hlisted with
    | own hme hname => exact fun hx hne => hname ▸ (hspread _ hx).1 _ hme (hname ▸ hne)
    | star _ hi hm1 _ ih => exact fun hx hne => ih ((hspread _ hx).2 _ hi _ hm1) hne
  refine ⟨fun hn => ?_, fun hlisted => ?_⟩
  · exact ((hcollected.grown.listed name hn).resolve_left List.not_mem_nil).1
  · by_cases hdefault : name = atomDefault
    · cases hlisted with
      | own hme hname => exact hname ▸ hcollected.own List.not_mem_nil rfl _ hme
      | star hne _ _ _ => exact absurd hdefault hne
    · exact hstar hlisted hcollected.here hdefault

/-! ## The namespace -/

/-- Under `name` the module exports one binding. -/
def ExportsOne (c : Context) (m : Nat) (name : Text) : Prop :=
  ∃ m' me', Provides c m name m' me' ∧ ∀ n e, Provides c m name n e → Same n e m' me'

/-- What the answer of `js_build_module_ns` means. -/
def NamespaceRight (c : Context) (m : Nat) : Option (List Text) → Prop
  | none => ∃ name, Listed c m name ∧ ∀ m' me', ¬ Provides c m name m' me'
  | some l => l.Pairwise (· ≤ ·) ∧ l.Nodup ∧ ∀ name, name ∈ l ↔ ExportsOne c m name

/-- What a module exports from itself it exports once. -/
theorem exportsOne_of_local {m : Nat} {me : ExportEntry} (hme : me ∈ (c.defs m).script.exportEntries)
    (hlocal : me.exportType = .local) : ExportsOne c m me.exportName := by
  have hfind := find_of_mem hme
  refine ⟨m, me, .local hfind hlocal, fun n e hprovides => ?_⟩
  cases hprovides with
  | «local» hfind' _ =>
    rw [hfind] at hfind'
    cases hfind'
    exact ⟨rfl, rfl⟩
  | «namespace» hfind' htype _ =>
    rw [hfind] at hfind'
    cases hfind'
    rw [hlocal] at htype
    cases htype
  | indirect hfind' htype _ _ _ =>
    rw [hfind] at hfind'
    cases hfind'
    rw [hlocal] at htype
    cases htype
  | star hfind' _ _ _ _ =>
    rw [hfind] at hfind'
    cases hfind'

/-- What the loop over names comes to, with those that are kept already. -/
def NamesRight (c : Context) (m : Nat) (l : List ExportedName) (acc : List Text) : Option (List Text) → Prop
  | none => ∃ name ∈ names l, ∀ m' me', ¬ Provides c m name m' me'
  | some l' => l'.Nodup ∧ ∀ name, name ∈ l' ↔ name ∈ acc ∨ name ∈ names l ∧ ExportsOne c m name

theorem NamesRight.cons {en : ExportedName} {l : List ExportedName} {acc acc' : List Text} {m : Nat}
    {r : Option (List Text)} (hright : NamesRight c m l acc' r) (hacc : ∀ n, n ∈ acc' ∨ n ∈ names l ∧ ExportsOne c m n ↔
      n ∈ acc ∨ n ∈ names (en :: l) ∧ ExportsOne c m n) : NamesRight c m (en :: l) acc r := by
  cases r with
  | none =>
    obtain ⟨n, hn, hnone⟩ := hright
    exact ⟨n, List.mem_cons_of_mem _ hn, hnone⟩
  | some l' => exact ⟨hright.1, fun n => (hright.2 n).trans (hacc n)⟩

theorem resolveNames_right {fuel m : Nat} (hresolve : ∀ name, ∃ r, resolveExport c fuel m name = some r)
    {l : List ExportedName} {acc : List Text} (hfast : ∀ name, (name, true) ∈ l → ExportsOne c m name)
    (hnodup : (acc ++ names l).Nodup) :
    ∃ r, resolveNames c fuel m l acc = some r ∧ NamesRight c m l acc r := by
  induction l generalizing acc with
  | nil =>
    refine ⟨some acc, rfl, ?_, fun name => ?_⟩
    · rwa [names, List.map_nil, List.append_nil] at hnodup
    · simp [names]
  | cons en l ih =>
    obtain ⟨name, fast⟩ := en
    have hrest := fun n hn => hfast n (List.mem_cons_of_mem _ hn)
    have hkeep : ((acc ++ [name]) ++ names l).Nodup := by
      rw [List.append_assoc]
      exact hnodup
    have hdrop : (acc ++ names l).Nodup := by
      refine hnodup.sublist (List.Sublist.append_left ?_ acc)
      exact List.sublist_cons_self name (names l)
    -- a name that is kept, and one that is left out
    have hkept : ExportsOne c m name → ∃ r, resolveNames c fuel m l (acc ++ [name]) = some r ∧
        NamesRight c m ((name, fast) :: l) acc r := by
      intro hone
      obtain ⟨r, hr, hright⟩ := ih hrest hkeep
      refine ⟨r, hr, hright.cons fun n => ?_⟩
      show n ∈ acc ++ [name] ∨ _ ↔ n ∈ acc ∨ n ∈ name :: names l ∧ _
      rw [List.mem_append, List.mem_singleton, List.mem_cons, or_assoc]
      refine or_congr_right ⟨fun h => ?_, fun h => ?_⟩
      · rcases h with rfl | h
        · exact ⟨.inl rfl, hone⟩
        · exact ⟨.inr h.1, h.2⟩
      · exact h.1.imp_right fun hn => ⟨hn, h.2⟩
    unfold resolveNames
    split
    · rename_i hfastName
      subst hfastName
      exact hkept (hfast name List.mem_cons_self)
    · obtain ⟨r, hr⟩ := hresolve name
      have hright := right_of_resolveExport hr
      rw [hr]
      cases r with
      | found m' me' => exact hkept ⟨m', me', hright⟩
      | notFound => exact ⟨none, rfl, name, List.mem_cons_self, hright⟩
      | circular => exact ⟨none, rfl, name, List.mem_cons_self, hright⟩
      | ambiguous =>
        obtain ⟨m₁, me₁, m₂, me₂, h₁, h₂, hne⟩ := hright
        have hnone : ¬ ExportsOne c m name := by
          intro hone
          obtain ⟨m', me', -, hall⟩ := hone
          have hs₁ := hall m₁ me₁ h₁
          have hs₂ := hall m₂ me₂ h₂
          exact hne ⟨hs₁.1.trans hs₂.1.symm, hs₁.2.trans hs₂.2.symm⟩
        obtain ⟨r, hgo, hright⟩ := ih hrest hdrop
        refine ⟨r, hgo, hright.cons fun n => ?_⟩
        show _ ↔ n ∈ acc ∨ n ∈ name :: names l ∧ _
        rw [List.mem_cons]
        refine or_congr_right ⟨fun h => ⟨.inr h.1, h.2⟩, fun h => ⟨h.1.resolve_left fun heq => ?_, h.2⟩⟩
        exact hnone (heq ▸ h.2)

theorem length_searchPairs (name : Text) : (searchPairs c name).length = (searchPairs c []).length := by
  unfold searchPairs searchNames
  rw [List.length_product, List.length_product, List.length_cons, List.length_cons]

/-- If the walk and the searches end, the namespace is made. -/
theorem buildModuleNs_of_isSome {m fuel : Nat} {s : ExportNames}
    (hs : getExportedNames c fuel false ⟨[], []⟩ m = some s)
    (hresolve : ∀ name, ∃ r, resolveExport c fuel m name = some r) :
    ∃ r, buildModuleNs fuel m c = some r ∧ NamespaceRight c m r := by
  have hlisted : ∀ name, name ∈ names s.exportedNames ↔ Listed c m name := fun name => mem_exportedNames_iff hs
  have hfast : ∀ name, (name, true) ∈ s.exportedNames → ExportsOne c m name := by
    intro name hname
    obtain ⟨-, me, hme, hname, hlocal⟩ :=
      ((getExportedNames_collected hs).fast name hname).resolve_left List.not_mem_nil
    exact hname ▸ exportsOne_of_local hme hlocal
  have hnodup : ([] ++ names s.exportedNames : List Text).Nodup :=
    (getExportedNames_collected hs).grown.nodup List.nodup_nil
  obtain ⟨r, hr, hright⟩ := resolveNames_right hresolve hfast hnodup
  refine ⟨r.map fun l => l.mergeSort fun a b => decide (a ≤ b), ?_, ?_⟩
  · unfold buildModuleNs
    rw [hs]
    show (resolveNames c fuel m s.exportedNames []).bind _ = _
    rw [hr]
    rfl
  · cases r with
    | none =>
      obtain ⟨name, hname, hnone⟩ := hright
      exact ⟨name, (hlisted name).mp hname, hnone⟩
    | some l =>
      refine ⟨?_, ?_, fun name => ?_⟩
      · have htrans : ∀ a b d : Text, decide (a ≤ b) = true → decide (b ≤ d) = true → decide (a ≤ d) = true :=
          fun a b d hab hbd => decide_eq_true (List.le_trans (of_decide_eq_true hab) (of_decide_eq_true hbd))
        have htotal : ∀ a b : Text, (decide (a ≤ b) || decide (b ≤ a)) = true := by
          intro a b
          simpa using List.le_total a b
        exact (List.pairwise_mergeSort htrans htotal l).imp fun hab => of_decide_eq_true hab
      · exact (List.mergeSort_perm l _).nodup_iff.mpr hright.1
      · show name ∈ l.mergeSort _ ↔ _
        rw [List.mem_mergeSort, hright.2 name, hlisted name]
        refine ⟨fun h => (h.resolve_left List.not_mem_nil).2, fun hone => .inr ⟨?_, hone⟩⟩
        obtain ⟨m', me', hprovides, -⟩ := hone
        exact hprovides.listed

/-- **A module namespace** can be made in every context where no module is missing. It has the names under which
the module exports one binding, each once and in ascending order; where it throws instead, there is a name
that is exported and leads to nothing. -/
theorem buildModuleNs_right (hclosed : Closed c) {m fuel : Nat} (hm : m ∈ c.loadedModules)
    (hfuel : (searchPairs c []).length < fuel) :
    ∃ r, buildModuleNs fuel m c = some r ∧ NamespaceRight c m r := by
  have hmodules : unvisited c.loadedModules [] < fuel := by
    have hle := unvisited_le_length c.loadedModules []
    have hlength : c.loadedModules.length ≤ (searchPairs c []).length := by
      unfold searchPairs searchNames
      rw [List.length_product, List.length_cons]
      exact Nat.le_mul_of_pos_right _ (Nat.succ_pos _)
    omega
  have hget : ∃ s, getExportedNames c fuel false ⟨[], []⟩ m = some s := getExportedNames_isSome hclosed hm hmodules
  obtain ⟨s, hs⟩ := hget
  refine buildModuleNs_of_isSome hs fun name => ?_
  have hpairs : (searchPairs c name).length < fuel := by
    rw [length_searchPairs]
    exact hfuel
  obtain ⟨r, hr, -⟩ := resolveExport_right hclosed hm hpairs
  exact ⟨r, hr⟩

theorem buildModuleNs_right_stars :
    ∃ r, buildModuleNs 9 0 sampleStars = some r ∧ NamespaceRight sampleStars 0 r :=
  buildModuleNs_right sampleStars_closed (by decide) (by decide)

end QuickJSBridge.Es6
