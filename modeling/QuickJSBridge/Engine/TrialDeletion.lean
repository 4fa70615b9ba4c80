import QuickJSBridge.Engine.Collector

/-!
# Trial deletion

The two passes of a collection that only look. `gc_decref` visits every object and takes its references off the
counts of its children: an object is on `tmp_obj_list` when it has been visited and nothing is left of its count.
`gc_scan` starts with what is left on `gc_obj_list`, puts references back, and fetches the objects it meets; its
list grows while it walks through it.

* `Taken`, `gcDecref_taken` — the state of the first pass, and that no count falls below zero;
* `Scanned`, `gcScanLoop_scanned` — the state of the second, and that it ends;
* `Judged` — after both: the counts are those from before, `gc_obj_list` has the objects that are held, and
  `tmp_obj_list` the others; `gcScan_judged`.
-/

namespace QuickJSBridge.Gc

open RefCounts

variable {α : Type*} [DecidableEq α] {external : α → Nat} {rt₀ rt : Runtime α}

/-! ## Lists -/

theorem perm_move {a b : List α} {c : α} (ha : c ∈ a) (hb : c ∉ b) :
    (b.erase c ++ [c] ++ a.erase c).Perm (b ++ a) := by
  rw [List.erase_of_not_mem hb, List.append_assoc]
  exact (List.perm_cons_erase ha).symm.append_left b

omit [DecidableEq α] in
theorem not_mem_of_perm_nodup {a b l : List α} (h : (a ++ b).Perm l) (hl : l.Nodup) {c : α} (ha : c ∈ a) :
    c ∉ b :=
  fun hb => (List.nodup_append.mp (h.nodup_iff.mpr hl)).2.2 c ha c hb rfl

/-- What the passes leave alone. -/
structure Runtime.SameObjects (rt₀ rt : Runtime α) : Prop where
  allocated : rt.allocated = rt₀.allocated
  types : rt.gcObjType = rt₀.gcObjType
  children : rt.children = rt₀.children
  fields : rt.fields = rt₀.fields
  zero : rt.gcZeroRefCountList = rt₀.gcZeroRefCountList

theorem Runtime.SameObjects.setCount (h : rt₀.SameObjects rt) (p : α) (n : Nat) :
    rt₀.SameObjects (rt.setCount p n) :=
  ⟨h.allocated, h.types, h.children, h.fields, h.zero⟩

theorem Runtime.SameObjects.setMark (h : rt₀.SameObjects rt) (p : α) (b : Bool) :
    rt₀.SameObjects (rt.setMark p b) :=
  ⟨h.allocated, h.types, h.children, h.fields, h.zero⟩

/-- Outside of the freeing loops `gc_zero_ref_count_list` is empty. -/
theorem Exact.erase_zero (h : Exact external rt₀) (hsame : rt₀.SameObjects rt) (c : α) :
    rt.gcZeroRefCountList.erase c = rt₀.gcZeroRefCountList := by
  rw [hsame.zero, h.zero, List.erase_nil]

theorem Runtime.SameObjects.toTmp (hsame : rt₀.SameObjects rt) (h : Exact external rt₀) (c : α) :
    rt₀.SameObjects (rt.toTmp c) :=
  ⟨hsame.allocated, hsame.types, hsame.children, hsame.fields, h.erase_zero hsame c⟩

theorem Runtime.SameObjects.toGcObj (hsame : rt₀.SameObjects rt) (h : Exact external rt₀) (c : α) :
    rt₀.SameObjects (rt.toGcObj c) :=
  ⟨hsame.allocated, hsame.types, hsame.children, hsame.fields, h.erase_zero hsame c⟩

/-! ## The first pass -/

/-- The objects of `visited` have been visited, and of the next one the references `extra`. -/
structure Taken (rt₀ : Runtime α) (visited extra : List α) (rt : Runtime α) : Prop where
  same : rt₀.SameObjects rt
  count : ∀ p, rt.refCount p + incoming rt₀.children visited p + extra.count p = rt₀.refCount p
  mark : ∀ p ∈ rt₀.gcObjList, rt.mark p = true ↔ p ∈ visited
  split : (rt.gcObjList ++ rt.tmpObjList).Perm rt₀.gcObjList
  tmp : ∀ p, p ∈ rt.tmpObjList ↔ p ∈ visited ∧ rt.refCount p = 0

theorem taken_init (h : Exact external rt₀) : Taken rt₀ [] [] { rt₀ with tmpObjList := [] } where
  same := ⟨rfl, rfl, rfl, rfl, rfl⟩
  count := fun p => rfl
  mark := fun p hp => by simp [h.unmarked p hp]
  split := by simp
  tmp := fun p => by simp

/-- An object on `gc_obj_list` goes to the end of `tmp_obj_list`. -/
theorem split_toTmp (rt : Runtime α) (hsplit : (rt.gcObjList ++ rt.tmpObjList).Perm rt₀.gcObjList)
    {c : α} (hc : c ∈ rt₀.gcObjList) (htmp : c ∉ rt.tmpObjList) :
    ((rt.toTmp c).gcObjList ++ (rt.toTmp c).tmpObjList).Perm rt₀.gcObjList := by
  have hgc : c ∈ rt.gcObjList :=
    (List.mem_append.mp (hsplit.mem_iff.mpr hc)).resolve_right htmp
  have hmove := perm_move hgc htmp
  exact List.perm_append_comm.trans (hmove.trans (List.perm_append_comm.trans hsplit))

theorem mem_toTmp (rt : Runtime α) {c p : α} (htmp : c ∉ rt.tmpObjList) :
    p ∈ (rt.toTmp c).tmpObjList ↔ p ∈ rt.tmpObjList ∨ p = c := by
  show p ∈ rt.tmpObjList.erase c ++ [c] ↔ _
  rw [List.erase_of_not_mem htmp, List.mem_append, List.mem_singleton]

/-- One reference is taken off, of which the count still has one. -/
theorem gcDecrefChild_taken (h : Exact external rt₀) {visited extra : List α} {c : α}
    (ht : Taken rt₀ visited extra rt) (hc : c ∈ rt₀.gcObjList)
    (hleft : incoming rt₀.children visited c + extra.count c < rt₀.refCount c) :
    ∃ rt', gcDecrefChild rt c = some rt' ∧ Taken rt₀ visited (extra ++ [c]) rt' := by
  have hcount := ht.count c
  have hpos : 0 < rt.refCount c := by omega
  have halloc : rt.allocated c = true := by
    rw [ht.same.allocated]
    exact (h.linked c).mpr hc
  have htmp : c ∉ rt.tmpObjList := by
    rw [ht.tmp c]
    omega
  -- the counts, whether the object is moved or not
  have hcounts : ∀ p, Function.update rt.refCount c (rt.refCount c - 1) p +
      incoming rt₀.children visited p + (extra ++ [c]).count p = rt₀.refCount p := by
    intro p
    have := ht.count p
    rw [List.count_append, List.count_singleton]
    by_cases hp : p = c
    · subst hp
      rw [Function.update_self]
      simp
      omega
    · rw [Function.update_of_ne hp]
      simp [Ne.symm hp]
      omega
  have hdec : gcDecrefChild rt c =
      if (rt.setCount c (rt.refCount c - 1)).refCount c = 0 ∧ (rt.setCount c (rt.refCount c - 1)).mark c then
        some ((rt.setCount c (rt.refCount c - 1)).toTmp c) else some (rt.setCount c (rt.refCount c - 1)) :=
    if_pos ⟨halloc, hpos⟩
  rw [hdec]
  by_cases hmove : (rt.setCount c (rt.refCount c - 1)).refCount c = 0 ∧
      (rt.setCount c (rt.refCount c - 1)).mark c = true
  · rw [if_pos hmove]
    refine ⟨_, rfl, (ht.same.setCount c _).toTmp h c, hcounts, ht.mark,
      split_toTmp (rt.setCount c (rt.refCount c - 1)) ht.split hc htmp, fun p => ?_⟩
    rw [mem_toTmp (rt.setCount c (rt.refCount c - 1)) htmp]
    show p ∈ rt.tmpObjList ∨ p = c ↔ p ∈ visited ∧ Function.update rt.refCount c _ p = 0
    by_cases hp : p = c
    · subst hp
      exact ⟨fun _ => ⟨(ht.mark p hc).mp hmove.2, hmove.1⟩, fun _ => .inr rfl⟩
    · rw [Function.update_of_ne hp, ht.tmp p]
      simp [hp]
  · rw [if_neg hmove]
    refine ⟨_, rfl, ht.same.setCount c _, hcounts, ht.mark, ht.split, fun p => ?_⟩
    show p ∈ rt.tmpObjList ↔ p ∈ visited ∧ Function.update rt.refCount c _ p = 0
    by_cases hp : p = c
    · subst hp
      refine ⟨fun hmem => absurd hmem htmp, fun hv => ?_⟩
      exact absurd ⟨hv.2, (ht.mark p hc).mpr hv.1⟩ hmove
    · rw [Function.update_of_ne hp, ht.tmp p]

/-- The references of the object `q` are taken off, one after the other. -/
theorem gcDecref_children (h : Exact external rt₀) {visited extra cs : List α} {q : α}
    (hq : q ∈ rt₀.gcObjList) (hcs : rt₀.children q = extra ++ cs)
    (hleft : ∀ c ∈ rt₀.gcObjList,
      incoming rt₀.children visited c + (rt₀.children q).count c ≤ rt₀.refCount c)
    (ht : Taken rt₀ visited extra rt) :
    ∃ rt', cs.foldlM gcDecrefChild rt = some rt' ∧ Taken rt₀ visited (rt₀.children q) rt' := by
  induction cs generalizing rt extra with
  | nil =>
    rw [List.append_nil] at hcs
    exact ⟨rt, rfl, hcs ▸ ht⟩
  | cons c cs ih =>
    have hc : c ∈ rt₀.gcObjList := h.closed q hq c (by rw [hcs]; simp)
    have hbudget := hleft c hc
    rw [hcs, List.count_append, List.count_cons_self] at hbudget
    obtain ⟨rt₁, hrt₁, ht₁⟩ := gcDecrefChild_taken h ht hc (by omega)
    obtain ⟨rt₂, hrt₂, ht₂⟩ := ih (by rw [hcs]; simp) ht₁
    refine ⟨rt₂, ?_, ht₂⟩
    rw [List.foldlM_cons, hrt₁]
    exact hrt₂

/-- The object `q` has been visited: it is marked, and goes to the other list if nothing is left of its count. -/
theorem taken_marked (h : Exact external rt₀) {visited : List α} {q : α} (hq : q ∈ rt₀.gcObjList)
    (hnew : q ∉ visited) (ht : Taken rt₀ visited (rt₀.children q) rt) :
    Taken rt₀ (visited ++ [q]) []
      (if (rt.setMark q true).refCount q = 0 then (rt.setMark q true).toTmp q else rt.setMark q true) := by
  have hcounts : ∀ p, rt.refCount p + incoming rt₀.children (visited ++ [q]) p + ([] : List α).count p =
      rt₀.refCount p := by
    intro p
    have := ht.count p
    rw [incoming_append, incoming_singleton, List.count_nil]
    omega
  have hmarks : ∀ p ∈ rt₀.gcObjList, (rt.setMark q true).mark p = true ↔ p ∈ visited ++ [q] := by
    intro p hp
    show Function.update rt.mark q true p = true ↔ _
    by_cases hpq : p = q
    · simp [hpq]
    · rw [Function.update_of_ne hpq, ht.mark p hp]
      simp [hpq]
  have htmp : q ∉ rt.tmpObjList := fun hmem => hnew ((ht.tmp q).mp hmem).1
  by_cases hzero : (rt.setMark q true).refCount q = 0
  · rw [if_pos hzero]
    refine ⟨(ht.same.setMark q true).toTmp h q, hcounts, hmarks,
      split_toTmp (rt.setMark q true) ht.split hq htmp, fun p => ?_⟩
    rw [mem_toTmp (rt.setMark q true) htmp, List.mem_append, List.mem_singleton]
    show p ∈ rt.tmpObjList ∨ p = q ↔ (p ∈ visited ∨ p = q) ∧ rt.refCount p = 0
    by_cases hpq : p = q
    · subst hpq
      exact ⟨fun _ => ⟨.inr rfl, hzero⟩, fun _ => .inr rfl⟩
    · rw [ht.tmp p]
      simp [hpq]
  · rw [if_neg hzero]
    refine ⟨ht.same.setMark q true, hcounts, hmarks, ht.split, fun p => ?_⟩
    rw [List.mem_append, List.mem_singleton]
    show p ∈ rt.tmpObjList ↔ (p ∈ visited ∨ p = q) ∧ rt.refCount p = 0
    by_cases hpq : p = q
    · subst hpq
      exact ⟨fun hmem => absurd hmem htmp, fun hp => absurd hp.2 hzero⟩
    · rw [ht.tmp p]
      simp [hpq]

theorem gcDecrefLoop_taken (h : Exact external rt₀) {visited rest : List α}
    (hlist : rt₀.gcObjList = visited ++ rest) (ht : Taken rt₀ visited [] rt) :
    ∃ rt', gcDecrefLoop rest rt = some rt' ∧ Taken rt₀ rt₀.gcObjList [] rt' := by
  induction rest generalizing visited rt with
  | nil =>
    rw [List.append_nil] at hlist
    exact ⟨rt, rfl, hlist ▸ ht⟩
  | cons q rest ih =>
    have hq : q ∈ rt₀.gcObjList := by rw [hlist]; simp
    have hnew : q ∉ visited := by
      have hnodup := h.nodup
      rw [hlist] at hnodup
      intro hmem
      exact (List.nodup_append.mp hnodup).2.2 q hmem q List.mem_cons_self rfl
    -- the counts have the references of all objects
    have hleft : ∀ c ∈ rt₀.gcObjList,
        incoming rt₀.children visited c + (rt₀.children q).count c ≤ rt₀.refCount c := by
      intro c hc
      have hcount := h.count c hc
      rw [hlist, incoming_append, incoming_cons] at hcount
      omega
    obtain ⟨rt₁, hrt₁, ht₁⟩ := gcDecref_children h hq (List.nil_append _).symm hleft ht
    obtain ⟨rt₂, hrt₂, ht₂⟩ := ih (by rw [hlist]; simp) (taken_marked h hq hnew ht₁)
    refine ⟨rt₂, ?_, ht₂⟩
    have hmark : ¬ rt.mark q = true := fun hm => hnew ((ht.mark q hq).mp hm)
    have halloc : rt.allocated q = true := by
      rw [ht.same.allocated]
      exact (h.linked q).mpr hq
    have hvisit : rt.markChildren gcDecrefChild q = some rt₁ := by
      unfold Runtime.markChildren
      rw [if_pos halloc, ht.same.children]
      exact hrt₁
    unfold gcDecrefLoop
    rw [if_neg hmark, hvisit]
    exact hrt₂

/-- **The first pass.** No assertion fails, and of every count what is left are the references from outside. -/
theorem gcDecref_taken (h : Exact external rt₀) :
    ∃ rt', gcDecref rt₀ = some rt' ∧ Taken rt₀ rt₀.gcObjList [] rt' :=
  gcDecrefLoop_taken h (List.nil_append _).symm (taken_init h)

theorem Taken.refCount_eq (h : Exact external rt₀) (ht : Taken rt₀ rt₀.gcObjList [] rt) {p : α}
    (hp : p ∈ rt₀.gcObjList) : rt.refCount p = external p := by
  have hcount := ht.count p
  rw [List.count_nil, h.count p hp] at hcount
  omega

/-! ## The second pass -/

/-- The objects of `visited` have been visited, and of the next one the references `extra`. -/
structure Scanned (rt₀ : Runtime α) (external : α → Nat) (visited extra : List α) (rt : Runtime α) : Prop where
  same : rt₀.SameObjects rt
  count : ∀ p ∈ rt₀.gcObjList, rt.refCount p = external p + incoming rt₀.children visited p + extra.count p
  order : visited <+: rt.gcObjList
  unmarked : ∀ p ∈ visited, rt.mark p = false
  split : (rt.gcObjList ++ rt.tmpObjList).Perm rt₀.gcObjList
  tmp : ∀ p ∈ rt₀.gcObjList, p ∈ rt.tmpObjList ↔ rt.refCount p = 0
  held : ∀ p ∈ rt.gcObjList, Held rt₀.children external p

theorem scanned_init (h : Exact external rt₀) (ht : Taken rt₀ rt₀.gcObjList [] rt) :
    Scanned rt₀ external [] [] rt where
  same := ht.same
  count := fun p hp => ht.refCount_eq h hp
  order := List.nil_prefix
  unmarked := fun p hp => absurd hp List.not_mem_nil
  split := ht.split
  tmp := fun p hp => by simp [ht.tmp p, hp]
  held := fun p hp => by
    have hmem : p ∈ rt₀.gcObjList := ht.split.mem_iff.mp (List.mem_append_left _ hp)
    have htmp : p ∉ rt.tmpObjList := not_mem_of_perm_nodup ht.split h.nodup hp
    rw [ht.tmp p, ht.refCount_eq h hmem] at htmp
    exact .root (by simp [hmem] at htmp; omega)

theorem split_toGcObj (rt : Runtime α) (h : Exact external rt₀) (hsplit : (rt.gcObjList ++ rt.tmpObjList).Perm rt₀.gcObjList)
    {c : α} (hc : c ∈ rt.tmpObjList) :
    ((rt.toGcObj c).gcObjList ++ (rt.toGcObj c).tmpObjList).Perm rt₀.gcObjList := by
  have hgc : c ∉ rt.gcObjList := fun hmem => not_mem_of_perm_nodup hsplit h.nodup hmem hc
  exact (perm_move hc hgc).trans hsplit

/-- One reference of a held object is put back. -/
theorem gcScanIncrefChild_scanned (h : Exact external rt₀) {visited extra : List α} {c : α}
    (hs : Scanned rt₀ external visited extra rt) (hc : c ∈ rt₀.gcObjList)
    (hheld : Held rt₀.children external c) :
    ∃ rt', gcScanIncrefChild rt c = some rt' ∧ Scanned rt₀ external visited (extra ++ [c]) rt' ∧
      (rt'.gcObjList = rt.gcObjList ∨ rt'.gcObjList = rt.gcObjList ++ [c]) := by
  have halloc : rt.allocated c = true := by
    rw [hs.same.allocated]
    exact (h.linked c).mpr hc
  have hcounts : ∀ p ∈ rt₀.gcObjList, Function.update rt.refCount c (rt.refCount c + 1) p =
      external p + incoming rt₀.children visited p + (extra ++ [c]).count p := by
    intro p hp
    have := hs.count p hp
    rw [List.count_append, List.count_singleton]
    by_cases hpc : p = c
    · subst hpc
      rw [Function.update_self]
      simp
      omega
    · rw [Function.update_of_ne hpc]
      simp [Ne.symm hpc]
      omega
  have hinc : gcScanIncrefChild rt c = some
      (if (rt.setCount c (rt.refCount c + 1)).refCount c = 1 then
        ((rt.setCount c (rt.refCount c + 1)).toGcObj c).setMark c false
      else rt.setCount c (rt.refCount c + 1)) := if_pos halloc
  have hone : (rt.setCount c (rt.refCount c + 1)).refCount c = rt.refCount c + 1 := Function.update_self ..
  rw [hinc, hone]
  by_cases hzero : rt.refCount c = 0
  · -- the object was given up, and is fetched back
    rw [if_pos (by omega)]
    have htmp : c ∈ rt.tmpObjList := (hs.tmp c hc).mpr hzero
    have hgc : c ∉ rt.gcObjList := fun hmem => not_mem_of_perm_nodup hs.split h.nodup hmem htmp
    have hlist : (((rt.setCount c (rt.refCount c + 1)).toGcObj c).setMark c false).gcObjList =
        rt.gcObjList ++ [c] := by
      show rt.gcObjList.erase c ++ [c] = _
      rw [List.erase_of_not_mem hgc]
    have hnodup : rt.tmpObjList.Nodup :=
      (List.nodup_append.mp (hs.split.nodup_iff.mpr h.nodup)).2.1
    refine ⟨_, rfl, ⟨((hs.same.setCount c _).toGcObj h c).setMark c false, hcounts, ?_, fun p hp => ?_,
      split_toGcObj (rt.setCount c (rt.refCount c + 1)) h hs.split htmp, fun p hp => ?_,
      fun p hp => ?_⟩, .inr hlist⟩
    · rw [hlist]
      exact hs.order.trans (List.prefix_append _ _)
    · show Function.update rt.mark c false p = false
      by_cases hpc : p = c
      · rw [hpc, Function.update_self]
      · rw [Function.update_of_ne hpc]
        exact hs.unmarked p hp
    · show p ∈ rt.tmpObjList.erase c ↔ Function.update rt.refCount c _ p = 0
      rw [hnodup.mem_erase_iff]
      by_cases hpc : p = c
      · simp [hpc]
      · rw [Function.update_of_ne hpc, hs.tmp p hp]
        simp [hpc]
    · rw [hlist, List.mem_append, List.mem_singleton] at hp
      rcases hp with hp | rfl
      · exact hs.held p hp
      · exact hheld
  · rw [if_neg (by omega)]
    refine ⟨_, rfl, ⟨hs.same.setCount c _, hcounts, hs.order, hs.unmarked, hs.split, fun p hp => ?_, hs.held⟩,
      .inl rfl⟩
    show p ∈ rt.tmpObjList ↔ Function.update rt.refCount c _ p = 0
    rw [hs.tmp p hp]
    by_cases hpc : p = c
    · subst hpc
      rw [Function.update_self]
      omega
    · rw [Function.update_of_ne hpc]

theorem gcScan_children (h : Exact external rt₀) {visited extra cs : List α} {q : α} {rest : List α}
    (hq : q ∈ rt₀.gcObjList) (hheld : Held rt₀.children external q) (hcs : rt₀.children q = extra ++ cs)
    (horder : rt.gcObjList = visited ++ q :: rest) (hs : Scanned rt₀ external visited extra rt) :
    ∃ rt' rest', cs.foldlM gcScanIncrefChild rt = some rt' ∧
      Scanned rt₀ external visited (rt₀.children q) rt' ∧ rt'.gcObjList = visited ++ q :: rest' ∧
      (rt.mark q = false → rt'.mark q = false) := by
  induction cs generalizing rt extra rest with
  | nil =>
    rw [List.append_nil] at hcs
    exact ⟨rt, rest, rfl, hcs ▸ hs, horder, id⟩
  | cons c cs ih =>
    have hmem : c ∈ rt₀.children q := by rw [hcs]; simp
    obtain ⟨rt₁, hrt₁, hs₁, hgrown⟩ :=
      gcScanIncrefChild_scanned h hs (h.closed q hq c hmem) (.child hheld hmem)
    have horder₁ : ∃ rest₁, rt₁.gcObjList = visited ++ q :: rest₁ := by
      rcases hgrown with hsame | hmore
      · exact ⟨rest, hsame.trans horder⟩
      · exact ⟨rest ++ [c], by rw [hmore, horder]; simp⟩
    have hmark : rt.mark q = false → rt₁.mark q = false := by
      unfold gcScanIncrefChild at hrt₁
      split at hrt₁
      · cases hrt₁
        intro hm
        split
        · show Function.update rt.mark c false q = false
          by_cases hqc : q = c
          · rw [hqc, Function.update_self]
          · rw [Function.update_of_ne hqc]
            exact hm
        · exact hm
      · cases hrt₁
    obtain ⟨rest₁, horder₁⟩ := horder₁
    obtain ⟨rt₂, rest₂, hrt₂, hs₂, horder₂, hmark₂⟩ :=
      ih (by rw [hcs]; simp) horder₁ hs₁
    refine ⟨rt₂, rest₂, ?_, hs₂, horder₂, fun hm => hmark₂ (hmark hm)⟩
    rw [List.foldlM_cons, hrt₁]
    exact hrt₂

/-- **The second pass ends**: its list never has more objects than there are. -/
theorem gcScanLoop_scanned (h : Exact external rt₀) {fuel : Nat} {visited : List α}
    (hfuel : rt₀.gcObjList.length ≤ visited.length + fuel) (hs : Scanned rt₀ external visited [] rt) :
    ∃ rt', gcScanLoop fuel visited.length rt = some rt' ∧ Scanned rt₀ external rt'.gcObjList [] rt' := by
  induction fuel generalizing visited rt with
  | zero =>
    obtain ⟨rest, hrest⟩ := hs.order
    have hlength := hs.split.length_eq
    rw [← hrest, List.length_append, List.length_append] at hlength
    have hnil : rest = [] := List.length_eq_zero_iff.mp (by omega)
    rw [hnil, List.append_nil] at hrest
    have hnone : rt.gcObjList[visited.length]? = none := by rw [← hrest]; simp
    refine ⟨rt, ?_, hrest ▸ hs⟩
    unfold gcScanLoop
    rw [hnone]
  | succ fuel ih =>
    obtain ⟨rest, hrest⟩ := hs.order
    cases rest with
    | nil =>
      rw [List.append_nil] at hrest
      have hnone : rt.gcObjList[visited.length]? = none := by rw [← hrest]; simp
      refine ⟨rt, ?_, hrest ▸ hs⟩
      unfold gcScanLoop
      rw [hnone]
    | cons q rest =>
      have hsome : rt.gcObjList[visited.length]? = some q := by rw [← hrest]; simp
      have hgc : q ∈ rt.gcObjList := by rw [← hrest]; simp
      have hq : q ∈ rt₀.gcObjList := hs.split.mem_iff.mp (List.mem_append_left _ hgc)
      have hpos : ¬ rt.refCount q = 0 := by
        rw [← hs.tmp q hq]
        exact not_mem_of_perm_nodup hs.split h.nodup hgc
      have hs₀ : Scanned rt₀ external visited [] (rt.setMark q false) := by
        refine ⟨hs.same.setMark q false, hs.count, hs.order, fun p hp => ?_, hs.split, hs.tmp, hs.held⟩
        show Function.update rt.mark q false p = false
        by_cases hpq : p = q
        · rw [hpq, Function.update_self]
        · rw [Function.update_of_ne hpq]
          exact hs.unmarked p hp
      have horder₀ : (rt.setMark q false).gcObjList = visited ++ q :: rest := hrest.symm
      obtain ⟨rt₁, rest₁, hrt₁, hs₁, horder₁, hmark₁⟩ :=
        gcScan_children h hq (hs.held q hgc) (List.nil_append _).symm horder₀ hs₀
      have hvisited : Scanned rt₀ external (visited ++ [q]) [] rt₁ := by
        refine ⟨hs₁.same, fun p hp => ?_, ⟨rest₁, by rw [horder₁]; simp⟩, fun p hp => ?_, hs₁.split, hs₁.tmp,
          hs₁.held⟩
        · rw [hs₁.count p hp, incoming_append, incoming_singleton, List.count_nil]
          omega
        · rcases List.mem_append.mp hp with hp | hp
          · exact hs₁.unmarked p hp
          · rw [List.mem_singleton.mp hp]
            exact hmark₁ (Function.update_self ..)
      obtain ⟨rt₂, hrt₂, hs₂⟩ := ih (by simp; omega) hvisited
      refine ⟨rt₂, ?_, hs₂⟩
      have hvisit : (rt.setMark q false).markChildren gcScanIncrefChild q = some rt₁ := by
        unfold Runtime.markChildren
        have halloc : (rt.setMark q false).allocated q = true := by
          rw [hs₀.same.allocated]
          exact (h.linked q).mpr hq
        rw [if_pos halloc, hs₀.same.children]
        exact hrt₁
      unfold gcScanLoop
      rw [hsome]
      show (if rt.refCount q = 0 then none else _) = _
      rw [if_neg hpos, hvisit]
      rw [List.length_append, List.length_singleton] at hrt₂
      exact hrt₂

/-! ## The counts put back -/

/-- The runtime with `n p` more references counted for each `p`. -/
def Runtime.addCounts (rt : Runtime α) (n : α → Nat) : Runtime α :=
  { rt with refCount := fun p => rt.refCount p + n p }

theorem foldlM_incref {cs : List α} (h : ∀ c ∈ cs, rt.allocated c = true) :
    cs.foldlM gcScanIncrefChild2 rt = some (rt.addCounts cs.count) := by
  induction cs generalizing rt with
  | nil => rfl
  | cons c cs ih =>
    have hc : gcScanIncrefChild2 rt c = some (rt.setCount c (rt.refCount c + 1)) :=
      if_pos (h c List.mem_cons_self)
    rw [List.foldlM_cons, hc]
    have hrest : ∀ d ∈ cs, (rt.setCount c (rt.refCount c + 1)).allocated d = true := fun d hd =>
      h d (List.mem_cons_of_mem c hd)
    show cs.foldlM gcScanIncrefChild2 (rt.setCount c (rt.refCount c + 1)) = _
    rw [ih hrest]
    have hcounts : ∀ p, (rt.setCount c (rt.refCount c + 1)).refCount p + cs.count p =
        rt.refCount p + (c :: cs).count p := by
      intro p
      show Function.update rt.refCount c _ p + _ = _
      rw [List.count_cons]
      by_cases hp : p = c
      · subst hp
        rw [Function.update_self]
        simp
        omega
      · rw [Function.update_of_ne hp]
        simp [Ne.symm hp]
    exact congrArg some (congrArg (fun n => { rt with refCount := n }) (funext hcounts))

theorem foldlM_restore {ps : List α} (hps : ∀ p ∈ ps, rt.allocated p = true)
    (hchildren : ∀ p ∈ ps, ∀ c ∈ rt.children p, rt.allocated c = true) :
    ps.foldlM (fun rt p => rt.markChildren gcScanIncrefChild2 p) rt =
      some (rt.addCounts (incoming rt.children ps)) := by
  induction ps generalizing rt with
  | nil => rfl
  | cons q ps ih =>
    have hq : rt.markChildren gcScanIncrefChild2 q = some (rt.addCounts (rt.children q).count) := by
      unfold Runtime.markChildren
      rw [if_pos (hps q List.mem_cons_self), foldlM_incref (hchildren q List.mem_cons_self)]
    rw [List.foldlM_cons, hq]
    have hps₀ : ∀ p ∈ ps, (rt.addCounts (rt.children q).count).allocated p = true := fun p hp =>
      hps p (List.mem_cons_of_mem q hp)
    show ps.foldlM (fun rt p => rt.markChildren gcScanIncrefChild2 p)
      (rt.addCounts (rt.children q).count) = _
    rw [ih hps₀ fun p hp => hchildren p (List.mem_cons_of_mem q hp)]
    have hcounts : ∀ p, rt.refCount p + (rt.children q).count p + incoming rt.children ps p =
        rt.refCount p + incoming rt.children (q :: ps) p := by
      intro p
      rw [incoming_cons]
      omega
    exact congrArg some (congrArg (fun n => { rt with refCount := n }) (funext hcounts))

/-- After the two passes: the counts are those from before, and the objects are told apart. -/
structure Judged (rt₀ : Runtime α) (external : α → Nat) (rt : Runtime α) : Prop where
  same : rt₀.SameObjects rt
  count : ∀ p ∈ rt₀.gcObjList, rt.refCount p = rt₀.refCount p
  unmarked : ∀ p ∈ rt.gcObjList, rt.mark p = false
  split : (rt.gcObjList ++ rt.tmpObjList).Perm rt₀.gcObjList
  kept : ∀ p, p ∈ rt.gcObjList ↔ Held rt₀.children external p

theorem Scanned.kept (h : Exact external rt₀) (hs : Scanned rt₀ external rt.gcObjList [] rt) (p : α) :
    p ∈ rt.gcObjList ↔ Held rt₀.children external p := by
  refine mem_iff_held hs.split h.closed h.roots hs.held fun q hq => ?_
  have hmem : q ∈ rt₀.gcObjList := hs.split.mem_iff.mp (List.mem_append_right _ hq)
  have hzero := (hs.tmp q hmem).mp hq
  rw [hs.count q hmem, List.count_nil] at hzero
  omega

/-- **The second pass.** -/
theorem gcScan_judged (h : Exact external rt₀) {fuel : Nat} (hfuel : rt₀.gcObjList.length ≤ fuel)
    (ht : Taken rt₀ rt₀.gcObjList [] rt) : ∃ rt', gcScan fuel rt = some rt' ∧ Judged rt₀ external rt' := by
  obtain ⟨rt₁, hrt₁, hs⟩ := gcScanLoop_scanned h (by simpa using hfuel) (scanned_init h ht)
  have hmem : ∀ p ∈ rt₁.tmpObjList, p ∈ rt₀.gcObjList := fun p hp =>
    hs.split.mem_iff.mp (List.mem_append_right _ hp)
  have halloc : ∀ p ∈ rt₀.gcObjList, rt₁.allocated p = true := by
    intro p hp
    rw [hs.same.allocated]
    exact (h.linked p).mpr hp
  have hrestore : rt₁.tmpObjList.foldlM (fun rt p => rt.markChildren gcScanIncrefChild2 p) rt₁ =
      some (rt₁.addCounts (incoming rt₁.children rt₁.tmpObjList)) := foldlM_restore
    (fun p hp => halloc p (hmem p hp)) fun p hp c hc => halloc c (h.closed p (hmem p hp) c (by rwa [hs.same.children] at hc))
  refine ⟨rt₁.addCounts (incoming rt₁.children rt₁.tmpObjList), ?_, ?_⟩
  · unfold gcScan
    rw [List.length_nil] at hrt₁
    rw [hrt₁]
    exact hrestore
  · have hkept := hs.kept h
    refine ⟨⟨hs.same.1, hs.same.2, hs.same.3, hs.same.4, hs.same.5⟩, fun p hp => ?_, hs.unmarked, hs.split,
      hkept⟩
    show rt₁.refCount p + incoming rt₁.children rt₁.tmpObjList p = rt₀.refCount p
    rw [hs.count p hp, h.count p hp, hs.same.children, List.count_nil, ← incoming_perm hs.split p,
      incoming_append]
    omega

end QuickJSBridge.Gc
