import QuickJSBridge.Engine.TrialDeletion

/-!
# Releasing references

An object whose count comes to zero is freed, and its fields are released in turn. While that goes on some
objects are intact, some have ended (their fields are being released, or have been), and the code that runs has
references in its hands that it has yet to drop. A count is the number of references from outside, from intact
objects, and in these hands.

* `Linked` — every object is in one of the three lists, once;
* `Freeing` — the account of a moment in the middle of it; `Freeing.drop`, `Freeing.begin`, `Freeing.finish` —
  the three things that happen;
* `Releases` — what a function does that drops a reference; `releases_release` shows it of `release`, given what
  the phase does with a value without references (`PhaseKeeps`).
-/

namespace QuickJSBridge.Gc

open RefCounts

variable {α : Type*} [DecidableEq α] {external : α → Nat} {rt₀ rt : Runtime α}

/-! ## The lists of the runtime -/

/-- The three lists, one after the other. -/
def Runtime.links (rt : Runtime α) : List α := rt.gcObjList ++ rt.gcZeroRefCountList ++ rt.tmpObjList

omit [DecidableEq α] in
theorem mem_links {p : α} :
    p ∈ rt.links ↔ p ∈ rt.gcObjList ∨ p ∈ rt.gcZeroRefCountList ∨ p ∈ rt.tmpObjList := by
  unfold Runtime.links
  rw [List.append_assoc, List.mem_append, List.mem_append]

/-- Every object is in one of the lists, once. -/
structure Linked (rt : Runtime α) : Prop where
  nodup : rt.links.Nodup
  mem : ∀ p, rt.allocated p = true ↔ p ∈ rt.links

omit [DecidableEq α] in
theorem nodup_lists (h : rt.links.Nodup) :
    rt.gcObjList.Nodup ∧ rt.gcZeroRefCountList.Nodup ∧ rt.tmpObjList.Nodup := by
  unfold Runtime.links at h
  rw [List.append_assoc] at h
  have hgc := List.nodup_append.mp h
  have hrest := List.nodup_append.mp hgc.2.1
  exact ⟨hgc.1, hrest.1, hrest.2.1⟩

omit [DecidableEq α] in
theorem not_mem_zero_of_mem_gcObj (h : rt.links.Nodup) {p : α} (hp : p ∈ rt.gcObjList) :
    p ∉ rt.gcZeroRefCountList := by
  unfold Runtime.links at h
  rw [List.append_assoc] at h
  exact fun hz => (List.nodup_append.mp h).2.2 p hp p (List.mem_append_left _ hz) rfl

omit [DecidableEq α] in
theorem not_mem_tmp_of_mem_gcObj (h : rt.links.Nodup) {p : α} (hp : p ∈ rt.gcObjList) :
    p ∉ rt.tmpObjList := by
  unfold Runtime.links at h
  rw [List.append_assoc] at h
  exact fun ht => (List.nodup_append.mp h).2.2 p hp p (List.mem_append_right _ ht) rfl

omit [DecidableEq α] in
theorem not_mem_zero_of_mem_tmp (h : rt.links.Nodup) {p : α} (hp : p ∈ rt.tmpObjList) :
    p ∉ rt.gcZeroRefCountList := by
  unfold Runtime.links at h
  exact fun hz => (List.nodup_append.mp h).2.2 p (List.mem_append_right _ hz) p hp rfl

theorem nodup_links_listDel (h : rt.links.Nodup) (p : α) : (rt.listDel p).links.Nodup := by
  refine List.Nodup.sublist ?_ h
  exact ((List.erase_sublist).append List.erase_sublist).append List.erase_sublist

theorem mem_links_listDel (h : rt.links.Nodup) {p q : α} :
    q ∈ (rt.listDel p).links ↔ q ≠ p ∧ q ∈ rt.links := by
  obtain ⟨hgc, hzero, htmp⟩ := nodup_lists h
  rw [mem_links, mem_links]
  show q ∈ rt.gcObjList.erase p ∨ q ∈ rt.gcZeroRefCountList.erase p ∨ q ∈ rt.tmpObjList.erase p ↔ _
  rw [hgc.mem_erase_iff, hzero.mem_erase_iff, htmp.mem_erase_iff]
  tauto

theorem links_toZeroHead (p : α) : (rt.toZeroHead p).links.Perm (p :: (rt.listDel p).links) := by
  show (rt.gcObjList.erase p ++ (p :: rt.gcZeroRefCountList.erase p) ++ rt.tmpObjList.erase p).Perm
    (p :: (rt.gcObjList.erase p ++ rt.gcZeroRefCountList.erase p ++ rt.tmpObjList.erase p))
  rw [List.append_assoc, List.cons_append, List.append_assoc]
  exact List.perm_middle

theorem links_toZeroTail (p : α) : (rt.toZeroTail p).links.Perm (p :: (rt.listDel p).links) := by
  show (rt.gcObjList.erase p ++ (rt.gcZeroRefCountList.erase p ++ [p]) ++ rt.tmpObjList.erase p).Perm
    (p :: (rt.gcObjList.erase p ++ rt.gcZeroRefCountList.erase p ++ rt.tmpObjList.erase p))
  rw [← List.append_assoc, List.append_assoc _ [p], List.singleton_append]
  exact List.perm_middle

/-- An object that goes from one list to another. -/
theorem Linked.of_moved (h : Linked rt) {p : α} (hp : rt.allocated p = true) {rt' : Runtime α}
    (halloc : rt'.allocated = rt.allocated) (hlinks : rt'.links.Perm (p :: (rt.listDel p).links)) :
    Linked rt' where
  nodup := by
    rw [hlinks.nodup_iff, List.nodup_cons, mem_links_listDel h.nodup]
    exact ⟨fun hmem => hmem.1 rfl, nodup_links_listDel h.nodup p⟩
  mem := fun q => by
    rw [halloc, hlinks.mem_iff, List.mem_cons, mem_links_listDel h.nodup, h.mem q]
    by_cases hq : q = p
    · subst hq
      simp [(h.mem q).mp hp]
    · simp [hq]

theorem Linked.jsFree (h : Linked rt) (p : α) : Linked ((rt.listDel p).jsFree p) where
  nodup := nodup_links_listDel h.nodup p
  mem := fun q => by
    show Function.update rt.allocated p false q = true ↔ q ∈ (rt.listDel p).links
    rw [mem_links_listDel h.nodup]
    by_cases hq : q = p
    · simp [hq]
    · rw [Function.update_of_ne hq, h.mem q]
      simp [hq]

theorem Exact.linkedLists (h : Exact external rt₀) : Linked rt₀ where
  nodup := by
    unfold Runtime.links
    rw [h.zero, h.tmp, List.append_nil, List.append_nil]
    exact h.nodup
  mem := fun p => by
    rw [h.linked p, mem_links, h.zero, h.tmp]
    simp

/-! ## The account -/

/-- What stays as it is while references are released. -/
structure Runtime.SameShape (rt₀ rt : Runtime α) : Prop where
  types : rt.gcObjType = rt₀.gcObjType
  children : rt.children = rt₀.children
  fields : rt.fields = rt₀.fields
  mark : rt.mark = rt₀.mark

/-- The objects of `intact` have all their references, those of `ended` have none that is accounted for, and
`pending` are the references that the code at work will drop. -/
structure Freeing (rt₀ : Runtime α) (external : α → Nat) (intact ended pending : List α) (rt : Runtime α) :
    Prop where
  same : rt₀.SameShape rt
  linked : Linked rt
  nodup : (intact ++ ended).Nodup
  allocated : ∀ p, rt.allocated p = true ↔ p ∈ intact ++ ended
  count : ∀ p, rt.allocated p = true →
    rt.refCount p = external p + incoming rt₀.children intact p + pending.count p
  closed : ∀ p ∈ intact, ∀ c ∈ rt₀.children p, rt.allocated c = true
  pending : ∀ c ∈ pending, rt.allocated c = true
  held : ∀ p, Held rt₀.children external p → p ∈ intact
  agree : ∀ p ∈ intact, (rt₀.fields p).Perm (rt₀.children p)
  types : ∀ p ∈ intact, ∀ c ∈ rt₀.children p, (rt₀.gcObjType p).mayHold (rt₀.gcObjType c) = true

/-- Objects that no `JSValue` points to are intact as long as they are counted. -/
def Plain (rt₀ : Runtime α) (intact : List α) (rt : Runtime α) : Prop :=
  ∀ p, rt.allocated p = true → (rt₀.gcObjType p).isValue = false → (0 < rt.refCount p ↔ p ∈ intact)

namespace Freeing

variable {intact ended pending : List α}

theorem nodup_intact (h : Freeing rt₀ external intact ended pending rt) : intact.Nodup :=
  (List.nodup_append.mp h.nodup).1

theorem not_mem_ended (h : Freeing rt₀ external intact ended pending rt) {p : α} (hp : p ∈ intact) :
    p ∉ ended :=
  fun he => (List.nodup_append.mp h.nodup).2.2 p hp p he rfl

theorem allocated_of_intact (h : Freeing rt₀ external intact ended pending rt) {p : α} (hp : p ∈ intact) :
    rt.allocated p = true :=
  (h.allocated p).mpr (List.mem_append_left _ hp)

/-- What is counted zero has no reference left, and is not held. -/
theorem not_held (h : Freeing rt₀ external intact ended pending rt) {p : α} (hp : rt.allocated p = true)
    (hzero : rt.refCount p = 0) : ¬ Held rt₀.children external p := by
  have hcount := h.count p hp
  exact not_held_of_unreferenced h.held (by omega)

/-- A reference is dropped. -/
theorem drop {c : α} (h : Freeing rt₀ external intact ended (c :: pending) rt) :
    Freeing rt₀ external intact ended pending (rt.setCount c (rt.refCount c - 1)) where
  same := ⟨h.same.types, h.same.children, h.same.fields, h.same.mark⟩
  linked := ⟨h.linked.nodup, h.linked.mem⟩
  nodup := h.nodup
  allocated := h.allocated
  count := fun p hp => by
    have hcount := h.count p hp
    rw [List.count_cons] at hcount
    show Function.update rt.refCount c (rt.refCount c - 1) p = _
    by_cases hpc : p = c
    · subst hpc
      rw [Function.update_self]
      simp at hcount
      omega
    · rw [Function.update_of_ne hpc, hcount]
      simp [Ne.symm hpc]
  closed := h.closed
  pending := fun d hd => h.pending d (List.mem_cons_of_mem c hd)
  held := h.held
  agree := h.agree
  types := h.types

/-- The fields of an object that is not held come into the hands of the code. -/
theorem begin {c : α} (h : Freeing rt₀ external intact ended pending rt) (hc : c ∈ intact)
    (hheld : ¬ Held rt₀.children external c) :
    Freeing rt₀ external (intact.erase c) (c :: ended) (rt₀.fields c ++ pending) rt where
  same := h.same
  linked := h.linked
  nodup := by
    have hperm : (intact.erase c ++ c :: ended).Perm (intact ++ ended) :=
      List.perm_middle.trans ((List.perm_cons_erase hc).symm.append_right ended)
    exact hperm.nodup_iff.mpr h.nodup
  allocated := fun p => by
    have hperm : (intact.erase c ++ c :: ended).Perm (intact ++ ended) :=
      List.perm_middle.trans ((List.perm_cons_erase hc).symm.append_right ended)
    rw [h.allocated p, hperm.mem_iff]
  count := fun p hp => by
    rw [h.count p hp, incoming_erase hc p, List.count_append, (h.agree c hc).count_eq p]
    omega
  closed := fun p hp => h.closed p (List.mem_of_mem_erase hp)
  pending := fun d hd => by
    rcases List.mem_append.mp hd with hd | hd
    · exact h.closed c hc d ((h.agree c hc).mem_iff.mp hd)
    · exact h.pending d hd
  held := fun p hp => by
    have hne : p ≠ c := fun heq => hheld (heq ▸ hp)
    exact (List.mem_erase_of_ne hne).mpr (h.held p hp)
  agree := fun p hp => h.agree p (List.mem_of_mem_erase hp)
  types := fun p hp => h.types p (List.mem_of_mem_erase hp)

/-- The memory of an ended object without references is freed. -/
theorem finish {c : α} (h : Freeing rt₀ external intact (c :: ended) pending rt) (hzero : rt.refCount c = 0) :
    Freeing rt₀ external intact ended pending ((rt.listDel c).jsFree c) := by
  have hperm : (intact ++ c :: ended).Perm (c :: (intact ++ ended)) := List.perm_middle
  have hnodup := hperm.nodup_iff.mp h.nodup
  have hc : rt.allocated c = true := (h.allocated c).mpr (by simp)
  have hcount := h.count c hc
  have hstill : ∀ p, p ≠ c → rt.allocated p = true → ((rt.listDel c).jsFree c).allocated p = true := by
    intro p hp halloc
    show Function.update rt.allocated c false p = true
    rw [Function.update_of_ne hp]
    exact halloc
  have hwas : ∀ p, ((rt.listDel c).jsFree c).allocated p = true → p ≠ c ∧ rt.allocated p = true := by
    intro p halloc
    have hup : Function.update rt.allocated c false p = true := halloc
    by_cases hp : p = c
    · simp [hp] at hup
    · rw [Function.update_of_ne hp] at hup
      exact ⟨hp, hup⟩
  exact {
    same := ⟨h.same.types, h.same.children, h.same.fields, h.same.mark⟩
    linked := h.linked.jsFree c
    nodup := (List.nodup_cons.mp hnodup).2
    allocated := fun p => by
      constructor
      · intro halloc
        obtain ⟨hp, halloc⟩ := hwas p halloc
        have hmem := hperm.mem_iff.mp ((h.allocated p).mp halloc)
        exact (List.mem_cons.mp hmem).resolve_left hp
      · intro hmem
        refine hstill p (fun heq => ?_) ((h.allocated p).mpr (hperm.mem_iff.mpr (List.mem_cons_of_mem c hmem)))
        exact (List.nodup_cons.mp hnodup).1 (heq ▸ hmem)
    count := fun p hp => h.count p (hwas p hp).2
    closed := fun p hp d hd => by
      refine hstill d (fun heq => ?_) (h.closed p hp d hd)
      have := incoming_pos hp (heq ▸ hd)
      omega
    pending := fun d hd => by
      refine hstill d (fun heq => ?_) (h.pending d hd)
      have := List.count_pos_iff.mpr (heq ▸ hd)
      omega
    held := h.held
    agree := h.agree
    types := h.types }

/-- An object goes to another list. -/
theorem moved (h : Freeing rt₀ external intact ended pending rt) {p : α} (hp : rt.allocated p = true)
    {rt' : Runtime α} (hrt' : rt' = rt.toZeroHead p ∨ rt' = rt.toZeroTail p) :
    Freeing rt₀ external intact ended pending rt' := by
  have hlinks : rt'.links.Perm (p :: (rt.listDel p).links) := by
    rcases hrt' with rfl | rfl
    · exact links_toZeroHead p
    · exact links_toZeroTail p
  have hparts : rt'.allocated = rt.allocated ∧ rt'.refCount = rt.refCount ∧ rt'.gcObjType = rt.gcObjType ∧
      rt'.children = rt.children ∧ rt'.fields = rt.fields ∧ rt'.mark = rt.mark := by
    rcases hrt' with rfl | rfl <;> exact ⟨rfl, rfl, rfl, rfl, rfl, rfl⟩
  obtain ⟨halloc, hcount, htypes, hchildren, hfields, hmark⟩ := hparts
  exact {
    same := ⟨htypes.trans h.same.types, hchildren.trans h.same.children, hfields.trans h.same.fields,
      hmark.trans h.same.mark⟩
    linked := h.linked.of_moved hp halloc hlinks
    nodup := h.nodup
    allocated := fun q => by rw [halloc]; exact h.allocated q
    count := fun q hq => by rw [hcount]; exact h.count q (halloc ▸ hq)
    closed := fun q hq d hd => by rw [halloc]; exact h.closed q hq d hd
    pending := fun d hd => by rw [halloc]; exact h.pending d hd
    held := h.held
    agree := h.agree
    types := h.types }

end Freeing

/-! ## What a release does

`Side` says how a phase arranges the lists, with `ended` as in `Freeing`. -/

section Releases

variable {Side : List α → Runtime α → Prop} {onZero : Runtime α → α → Option (Runtime α)}

/-- `f` drops a reference to `c` that is pending, and frees what it has to. -/
def Releases (rt₀ : Runtime α) (external : α → Nat) (Side : List α → Runtime α → Prop)
    (f : Runtime α → α → Option (Runtime α)) (c : α) : Prop :=
  ∀ intact ended pending rt, Freeing rt₀ external intact ended (c :: pending) rt → Plain rt₀ intact rt →
    Side ended rt →
    ∃ rt' intact', f rt c = some rt' ∧ Freeing rt₀ external intact' ended pending rt' ∧
      Plain rt₀ intact' rt' ∧ Side ended rt' ∧ intact'.Sublist intact

/-- References that are pending are dropped one after the other. -/
theorem foldlM_releases {f : Runtime α → α → Option (Runtime α)} {cs : List α}
    (hf : ∀ c ∈ cs, Releases rt₀ external Side f c) {intact ended pending : List α}
    (h : Freeing rt₀ external intact ended (cs ++ pending) rt) (hplain : Plain rt₀ intact rt)
    (hside : Side ended rt) :
    ∃ rt' intact', cs.foldlM f rt = some rt' ∧ Freeing rt₀ external intact' ended pending rt' ∧
      Plain rt₀ intact' rt' ∧ Side ended rt' ∧ intact'.Sublist intact := by
  induction cs generalizing rt intact with
  | nil => exact ⟨rt, intact, rfl, h, hplain, hside, List.Sublist.refl intact⟩
  | cons c cs ih =>
    obtain ⟨rt₁, intact₁, hrt₁, h₁, hplain₁, hside₁, hsub₁⟩ :=
      hf c List.mem_cons_self intact ended (cs ++ pending) rt h hplain hside
    obtain ⟨rt₂, intact₂, hrt₂, h₂, hplain₂, hside₂, hsub₂⟩ :=
      ih (fun d hd => hf d (List.mem_cons_of_mem c hd)) h₁ hplain₁ hside₁
    refine ⟨rt₂, intact₂, ?_, h₂, hplain₂, hside₂, hsub₂.trans hsub₁⟩
    rw [List.foldlM_cons, hrt₁]
    exact hrt₂

/-- How a phase keeps its lists: when a count is lowered that does not come to zero, when an object that is no
value begins and ends to be freed, and when `onZero` is given a value without references. -/
structure PhaseKeeps (rt₀ : Runtime α) (external : α → Nat) (Side : List α → Runtime α → Prop)
    (onZero : Runtime α → α → Option (Runtime α)) : Prop where
  lower : ∀ ended rt c, Side ended rt → 1 < rt.refCount c → Side ended (rt.setCount c (rt.refCount c - 1))
  start : ∀ ended rt c, Side ended rt → (rt₀.gcObjType c).isValue = false →
    Side (c :: ended) (rt.setCount c (rt.refCount c - 1))
  finish : ∀ intact ended pending rt c, Freeing rt₀ external intact (c :: ended) pending rt →
    Side (c :: ended) rt → (rt₀.gcObjType c).isValue = false → Side ended ((rt.listDel c).jsFree c)
  value : ∀ intact ended pending rt c, Freeing rt₀ external intact ended pending (rt.setCount c (rt.refCount c - 1)) →
    Plain rt₀ intact (rt.setCount c (rt.refCount c - 1)) → Side ended rt → rt.allocated c = true →
    (rt₀.gcObjType c).isValue = true → rt.refCount c = 1 →
    ∃ rt' intact', onZero (rt.setCount c (rt.refCount c - 1)) c = some rt' ∧
      Freeing rt₀ external intact' ended pending rt' ∧ Plain rt₀ intact' rt' ∧ Side ended rt' ∧
      intact'.Sublist intact

theorem releases_release (hphase : PhaseKeeps rt₀ external Side onZero) {n : Nat} {c : α}
    (hn : (rt₀.gcObjType c).rank < n) : Releases rt₀ external Side (release onZero n) c := by
  induction n generalizing c with
  | zero => exact absurd hn (Nat.not_lt_zero _)
  | succ n ih =>
    intro intact ended pending rt h hplain hside
    have halloc : rt.allocated c = true := h.pending c List.mem_cons_self
    have hcount := h.count c halloc
    rw [List.count_cons_self] at hcount
    have hnew : (rt.setCount c (rt.refCount c - 1)).refCount c = rt.refCount c - 1 := Function.update_self ..
    have hother : ∀ p, p ≠ c → (rt.setCount c (rt.refCount c - 1)).refCount p = rt.refCount p :=
      fun p hp => Function.update_of_ne hp ..
    have hdrop := h.drop
    unfold release
    rw [if_pos ⟨halloc, by omega⟩]
    simp only [hnew]
    by_cases hmore : rt.refCount c - 1 = 0
    · rw [if_neg (not_not_intro hmore), show (rt.setCount c (rt.refCount c - 1)).gcObjType = rt₀.gcObjType from
        h.same.types]
      by_cases hvalue : (rt₀.gcObjType c).isValue = true
      · -- a value is left to the phase
        rw [if_pos hvalue]
        refine hphase.value intact ended pending rt c hdrop (fun p hp hpv => ?_) hside halloc hvalue (by omega)
        have hpc : p ≠ c := by
          intro heq
          rw [heq, hvalue] at hpv
          cases hpv
        rw [hother p hpc]
        exact hplain p hp hpv
      · -- anything else is freed here
        have hplainc : (rt₀.gcObjType c).isValue = false := Bool.not_eq_true _ ▸ hvalue
        rw [if_neg hvalue]
        have hc : c ∈ intact := (hplain c halloc hplainc).mp (by omega)
        have hzero : (rt.setCount c (rt.refCount c - 1)).refCount c = 0 := hnew.trans hmore
        have hbegin := hdrop.begin hc (hdrop.not_held halloc hzero)
        have hplain₀ : Plain rt₀ (intact.erase c) (rt.setCount c (rt.refCount c - 1)) := by
          intro p hp hpv
          by_cases hpc : p = c
          · subst hpc
            simp [hzero, h.nodup_intact.mem_erase_iff]
          · rw [hother p hpc, hplain p hp hpv, List.mem_erase_of_ne hpc]
        have hfields : ∀ d ∈ rt₀.fields c, Releases rt₀ external Side (release onZero n) d := by
          intro d hd
          have hholds := h.types c hc d ((h.agree c hc).mem_iff.mp hd)
          have := ObjType.rank_lt_of_mayHold hplainc hholds
          exact ih (by omega)
        obtain ⟨rt₁, intact₁, hrt₁, h₁, hplain₁, hside₁, hsub₁⟩ :=
          foldlM_releases hfields hbegin hplain₀ (hphase.start ended rt c hside hplainc)
        have hdone : rt₁.refCount c = 0 := by
          have hmem : rt₁.allocated c = true := (h₁.allocated c).mpr (by simp)
          have hnot : c ∉ intact₁ := fun hin => h₁.not_mem_ended hin List.mem_cons_self
          have hiff := hplain₁ c hmem hplainc
          by_contra hpos
          exact hnot (hiff.mp (Nat.pos_of_ne_zero hpos))
        refine ⟨(rt₁.listDel c).jsFree c, intact₁, ?_, h₁.finish hdone, fun p hp hpv => ?_,
          hphase.finish intact₁ ended pending rt₁ c h₁ hside₁ hplainc,
          hsub₁.trans List.erase_sublist⟩
        · rw [show (rt.setCount c (rt.refCount c - 1)).fields = rt₀.fields from h.same.fields, hrt₁]
          rfl
        · have hwas : rt₁.allocated p = true := by
            have hup : Function.update rt₁.allocated c false p = true := hp
            by_cases hpc : p = c
            · simp [hpc] at hup
            · rwa [Function.update_of_ne hpc] at hup
          exact hplain₁ p hwas hpv
    · rw [if_pos hmore]
      refine ⟨_, intact, rfl, hdrop, fun p hp hpv => ?_, hphase.lower ended rt c hside (by omega),
        List.Sublist.refl intact⟩
      by_cases hpc : p = c
      · subst hpc
        have hiff := hplain p hp hpv
        rw [hnew, ← hiff]
        omega
      · rw [hother p hpc]
        exact hplain p hp hpv

end Releases

end QuickJSBridge.Gc
