import QuickJSBridge.Engine.Release

/-!
# Dropping a reference

Outside a collection a value without references goes to the head of `gc_zero_ref_count_list`, and the loop of
`free_zero_refcount` frees what is there. Freeing one object can bring the counts of others to zero, which join
the list, so that the loop goes on until nothing is left.

* `ZeroListed` — while the loop runs, the list has the values that are counted zero;
  `freeZeroRefcount_freeing` — the loop ends;
* `Settled` — before and after it;
* `Freeing.exact` — the account of a moment when nothing is being freed is `Exact`;
* `freeValue_exact` — to drop a reference keeps the counts exact, and frees no object that is still held.
-/

namespace QuickJSBridge.Gc

open RefCounts

variable {α : Type*} [DecidableEq α] {external : α → Nat} {rt₀ rt : Runtime α} {intact ended pending : List α}

/-! ## The list of values without references -/

/-- `gc_zero_ref_count_list` has the values that are counted zero. -/
structure ZeroListed (rt₀ : Runtime α) (ended : List α) (rt : Runtime α) : Prop where
  tmp : rt.tmpObjList = []
  zero : ∀ p, p ∈ rt.gcZeroRefCountList ↔
    rt.allocated p = true ∧ (rt₀.gcObjType p).isValue = true ∧ rt.refCount p = 0

theorem update_ne_zero_iff {n : α → Nat} {c p : α} (h : 1 < n c) :
    Function.update n c (n c - 1) p = 0 ↔ n p = 0 := by
  by_cases hp : p = c
  · subst hp
    rw [Function.update_self]
    omega
  · rw [Function.update_of_ne hp]

theorem allocated_jsFree {c p : α} :
    ((rt.listDel c).jsFree c).allocated p = true ↔ p ≠ c ∧ rt.allocated p = true := by
  show Function.update rt.allocated c false p = true ↔ _
  by_cases hp : p = c
  · simp [hp]
  · simp [hp]

theorem ZeroListed.jsFree (hlinks : rt.links.Nodup) {ended' : List α} (h : ZeroListed rt₀ ended rt) (c : α) :
    ZeroListed rt₀ ended' ((rt.listDel c).jsFree c) where
  tmp := by
    show rt.tmpObjList.erase c = []
    rw [h.tmp, List.erase_nil]
  zero := fun p => by
    show p ∈ rt.gcZeroRefCountList.erase c ↔ _
    rw [(nodup_lists hlinks).2.1.mem_erase_iff, h.zero p, allocated_jsFree, and_assoc]
    exact Iff.rfl

theorem zeroListed_keeps : PhaseKeeps rt₀ external (ZeroListed rt₀) Phase.decref.onZero where
  lower := fun ended rt c h hmore => by
    refine ⟨h.tmp, fun p => ?_⟩
    show p ∈ rt.gcZeroRefCountList ↔ _ ∧ _ ∧ Function.update rt.refCount c (rt.refCount c - 1) p = 0
    rw [update_ne_zero_iff hmore]
    exact h.zero p
  start := fun ended rt c h hplain => by
    refine ⟨h.tmp, fun p => ?_⟩
    show p ∈ rt.gcZeroRefCountList ↔ rt.allocated p = true ∧ _ ∧
      Function.update rt.refCount c (rt.refCount c - 1) p = 0
    rw [h.zero p]
    by_cases hp : p = c
    · subst hp
      simp [hplain]
    · rw [Function.update_of_ne hp]
  finish := fun intact ended pending rt c hfree h _ => h.jsFree hfree.linked.nodup c
  value := fun intact ended pending rt c hfree hplain h halloc hvalue hone => by
    refine ⟨_, intact, rfl, hfree.moved (p := c) halloc (.inl rfl), hplain, ⟨?_, fun p => ?_⟩,
      List.Sublist.refl intact⟩
    · show rt.tmpObjList.erase c = []
      rw [h.tmp, List.erase_nil]
    · have hnodup : rt.gcZeroRefCountList.Nodup := (nodup_lists hfree.linked.nodup).2.1
      show p ∈ c :: rt.gcZeroRefCountList.erase c ↔ rt.allocated p = true ∧ _ ∧
        Function.update rt.refCount c (rt.refCount c - 1) p = 0
      rw [List.mem_cons, hnodup.mem_erase_iff]
      by_cases hp : p = c
      · subst hp
        simp [halloc, hvalue, hone]
      · rw [Function.update_of_ne hp, ← h.zero p]
        simp [hp]

/-! ## The loop -/

/-- Objects of types that only `release` frees. -/
def NoValue (rt₀ : Runtime α) (ended : List α) : Prop := ∀ p ∈ ended, (rt₀.gcObjType p).isValue = false

/-- **The loop of `free_zero_refcount` ends** with nothing left to free: with each turn there is an object less
that has its references. -/
theorem freeZeroRefcount_freeing {fuel : Nat} (hfuel : intact.length ≤ fuel)
    (h : Freeing rt₀ external intact ended pending rt) (hplain : Plain rt₀ intact rt)
    (hside : ZeroListed rt₀ ended rt) (hended : NoValue rt₀ ended) :
    ∃ rt' intact', freeZeroRefcount fuel rt = some rt' ∧ Freeing rt₀ external intact' ended pending rt' ∧
      Plain rt₀ intact' rt' ∧ ZeroListed rt₀ ended rt' ∧ rt'.gcZeroRefCountList = [] ∧
      intact'.Sublist intact := by
  induction fuel generalizing rt intact with
  | zero =>
    cases hlist : rt.gcZeroRefCountList with
    | nil =>
      refine ⟨rt, intact, ?_, h, hplain, hside, hlist, List.Sublist.refl intact⟩
      unfold freeZeroRefcount
      rw [hlist]
    | cons p rest =>
      obtain ⟨halloc, hvalue, -⟩ := (hside.zero p).mp (by rw [hlist]; exact List.mem_cons_self)
      have hnil : intact = [] := List.length_eq_zero_iff.mp (by omega)
      have hmem := (h.allocated p).mp halloc
      rw [hnil, List.nil_append] at hmem
      exact absurd (hended p hmem) (by simp [hvalue])
  | succ fuel ih =>
    cases hlist : rt.gcZeroRefCountList with
    | nil =>
      refine ⟨rt, intact, ?_, h, hplain, hside, hlist, List.Sublist.refl intact⟩
      unfold freeZeroRefcount
      rw [hlist]
    | cons p rest =>
      obtain ⟨halloc, hvalue, hzero⟩ := (hside.zero p).mp (by rw [hlist]; exact List.mem_cons_self)
      have hp : p ∈ intact := by
        rcases List.mem_append.mp ((h.allocated p).mp halloc) with hmem | hmem
        · exact hmem
        · exact absurd (hended p hmem) (by simp [hvalue])
      have hbegin := h.begin hp (h.not_held halloc hzero)
      have hplain₀ : Plain rt₀ (intact.erase p) rt := by
        intro q hq hqv
        have hqp : q ≠ p := by
          intro heq
          rw [heq, hvalue] at hqv
          cases hqv
        rw [hplain q hq hqv, List.mem_erase_of_ne hqp]
      obtain ⟨rt₁, intact₁, hrt₁, h₁, hplain₁, hside₁, hsub₁⟩ :=
        foldlM_releases (f := release Phase.decref.onZero depth)
          (fun c _ => releases_release zeroListed_keeps (ObjType.rank_lt _)) hbegin hplain₀
          ⟨hside.tmp, hside.zero⟩
      -- nothing refers to the object, and nothing can come to refer to it
      have hdone : rt₁.refCount p = 0 := by
        have hnow := h₁.count p ((h₁.allocated p).mpr (by simp))
        have hwas := hbegin.count p halloc
        have hless : incoming rt₀.children intact₁ p ≤ incoming rt₀.children (intact.erase p) p :=
          incoming_le_of_sublist hsub₁ p
        rw [List.count_append] at hwas
        omega
      have hfinish := h₁.finish hdone
      have hfree : freeGcObject .decref rt p = some ((rt₁.listDel p).jsFree p) := by
        unfold freeGcObject
        rw [h.same.fields, hrt₁]
        rfl
      have hshorter : intact₁.length ≤ fuel := by
        have herase := List.length_erase_of_mem hp
        have hpos := List.length_pos_of_mem hp
        have hle := hsub₁.length_le
        omega
      obtain ⟨rt₂, intact₂, hrt₂, h₂, hplain₂, hside₂, hnil₂, hsub₂⟩ :=
        ih hshorter hfinish (fun q hq hqv => hplain₁ q (allocated_jsFree.mp hq).2 hqv)
          (hside₁.jsFree h₁.linked.nodup p)
      refine ⟨rt₂, intact₂, ?_, h₂, hplain₂, hside₂, hnil₂, hsub₂.trans (hsub₁.trans List.erase_sublist)⟩
      have hhead : rt.refCount p = 0 ∧ (rt.gcObjType p).isValue = true :=
        ⟨hzero, by rw [h.same.types]; exact hvalue⟩
      unfold freeZeroRefcount
      rw [hlist]
      show (if rt.refCount p = 0 ∧ (rt.gcObjType p).isValue = true then _ else _) = _
      rw [if_pos hhead, hfree]
      exact hrt₂

/-! ## Outside a collection -/

/-- No value waits to be freed, and there are at most `n` objects. -/
structure Settled (rt₀ : Runtime α) (n : Nat) (ended : List α) (rt : Runtime α) : Prop where
  tmp : rt.tmpObjList = []
  zero : rt.gcZeroRefCountList = []
  pos : ∀ p, rt.allocated p = true → (rt₀.gcObjType p).isValue = true → 0 < rt.refCount p
  ended : NoValue rt₀ ended
  size : ∀ l : List α, l.Nodup → (∀ p ∈ l, rt.allocated p = true) → l.length ≤ n

theorem settled_keeps {n : Nat} : PhaseKeeps rt₀ external (Settled rt₀ n)
    (fun rt p => freeZeroRefcount n (rt.toZeroHead p)) where
  lower := fun ended rt c h hmore => by
    refine ⟨h.tmp, h.zero, fun p hp hpv => Nat.pos_of_ne_zero fun hz => ?_, h.ended, h.size⟩
    have hwas : rt.refCount p = 0 := (update_ne_zero_iff hmore).mp hz
    have hpos := h.pos p hp hpv
    omega
  start := fun ended rt c h hplain => by
    refine ⟨h.tmp, h.zero, fun p hp hpv => ?_, fun p hp => ?_, h.size⟩
    · show 0 < Function.update rt.refCount c (rt.refCount c - 1) p
      have hpc : p ≠ c := by
        intro heq
        rw [heq, hplain] at hpv
        cases hpv
      rw [Function.update_of_ne hpc]
      exact h.pos p hp hpv
    · rcases List.mem_cons.mp hp with rfl | hp
      · exact hplain
      · exact h.ended p hp
  finish := fun intact ended pending rt c hfree h hplain => by
    refine ⟨?_, ?_, fun p hp hpv => h.pos p (allocated_jsFree.mp hp).2 hpv,
      fun p hp => h.ended p (List.mem_cons_of_mem c hp),
      fun l hl hmem => h.size l hl fun p hp => (allocated_jsFree.mp (hmem p hp)).2⟩
    · show rt.tmpObjList.erase c = []
      rw [h.tmp, List.erase_nil]
    · show rt.gcZeroRefCountList.erase c = []
      rw [h.zero, List.erase_nil]
  value := fun intact ended pending rt c hfree hplain h halloc hvalue hone => by
    have hmoved := hfree.moved (p := c) halloc (.inl rfl)
    have hlisted : ZeroListed rt₀ ended ((rt.setCount c (rt.refCount c - 1)).toZeroHead c) := by
      refine ⟨?_, fun p => ?_⟩
      · show rt.tmpObjList.erase c = []
        rw [h.tmp, List.erase_nil]
      · show p ∈ c :: rt.gcZeroRefCountList.erase c ↔ rt.allocated p = true ∧ _ ∧
          Function.update rt.refCount c (rt.refCount c - 1) p = 0
        rw [h.zero, List.erase_nil, List.mem_singleton]
        by_cases hp : p = c
        · subst hp
          simp [halloc, hvalue, hone]
        · rw [Function.update_of_ne hp]
          refine ⟨fun heq => absurd heq hp, fun hpz => ?_⟩
          have hpos := h.pos p hpz.1 hpz.2.1
          omega
    have hsize := h.size intact hfree.nodup_intact fun p hp => hfree.allocated_of_intact hp
    obtain ⟨rt', intact', hrt', h', hplain', hside', hnil', hsub'⟩ :=
      freeZeroRefcount_freeing hsize hmoved hplain hlisted h.ended
    have hshrink : ∀ p, rt'.allocated p = true → rt.allocated p = true := by
      intro p hp
      refine (hfree.allocated p).mpr ?_
      exact List.mem_append.mpr ((List.mem_append.mp ((h'.allocated p).mp hp)).imp_left fun hi => hsub'.subset hi)
    refine ⟨rt', intact', hrt', h', hplain', ⟨hside'.tmp, hnil', fun p hp hpv => ?_, h.ended,
      fun l hl hmem => h.size l hl fun p hp => hshrink p (hmem p hp)⟩, hsub'⟩
    refine Nat.pos_of_ne_zero fun hz => ?_
    have hmem := (hside'.zero p).mpr ⟨hp, hpv, hz⟩
    rw [hnil'] at hmem
    cases hmem

/-! ## Exact counts -/

/-- When nothing is being freed the intact objects are all there are. -/
theorem Freeing.exact (h : Freeing rt₀ external intact [] [] rt) (hzero : rt.gcZeroRefCountList = [])
    (htmp : rt.tmpObjList = []) (hmark : ∀ p ∈ intact, rt₀.mark p = false)
    (hpos : ∀ p ∈ intact, 0 < rt.refCount p) : Exact external rt := by
  have hlinks : rt.links = rt.gcObjList := by
    unfold Runtime.links
    rw [hzero, htmp, List.append_nil, List.append_nil]
  have hlinked : ∀ p, rt.allocated p = true ↔ p ∈ rt.gcObjList := by
    intro p
    rw [h.linked.mem p, hlinks]
  have hnodup : rt.gcObjList.Nodup := hlinks ▸ h.linked.nodup
  have hintact : ∀ p, p ∈ rt.gcObjList ↔ p ∈ intact := by
    intro p
    rw [← hlinked p, h.allocated p, List.append_nil]
  have hperm : rt.gcObjList.Perm intact := (List.perm_ext_iff_of_nodup hnodup h.nodup_intact).mpr hintact
  exact {
    nodup := hnodup
    linked := hlinked
    zero := hzero
    tmp := htmp
    unmarked := fun p hp => by rw [h.same.mark]; exact hmark p ((hintact p).mp hp)
    closed := fun p hp c hc => by
      rw [h.same.children] at hc
      exact (hlinked c).mp (h.closed p ((hintact p).mp hp) c hc)
    roots := fun p hp => (hintact p).mpr (h.held p (.root hp))
    count := fun p hp => by
      rw [h.count p ((hlinked p).mpr hp), h.same.children, incoming_perm hperm, List.count_nil, Nat.add_zero]
    pos := fun p hp => hpos p ((hintact p).mp hp)
    agree := fun p hp => by
      rw [h.same.fields, h.same.children]
      exact h.agree p ((hintact p).mp hp)
    types := fun p hp => by
      rw [h.same.types, h.same.children]
      exact h.types p ((hintact p).mp hp) }

/-- What is held from outside when the reference that is dropped is not counted. -/
theorem Exact.freeing (h : Exact external rt) {external' : α → Nat} {pending : List α}
    (hexternal : ∀ p, external p = external' p + pending.count p) :
    Freeing rt external' rt.gcObjList [] pending rt where
  same := ⟨rfl, rfl, rfl, rfl⟩
  linked := h.linkedLists
  nodup := by rw [List.append_nil]; exact h.nodup
  allocated := fun p => by rw [List.append_nil]; exact h.linked p
  count := fun p hp => by
    rw [h.count p ((h.linked p).mp hp), hexternal p]
    omega
  closed := fun p hp c hc => (h.linked c).mpr (h.closed p hp c hc)
  pending := fun c hc => by
    have hcount := List.count_pos_iff.mpr hc
    have := hexternal c
    exact (h.linked c).mpr (h.roots c (by omega))
  held := fun p hp => by
    refine hp.mem_of_closed (S := (· ∈ rt.gcObjList)) (fun q hq => h.roots q ?_) h.closed
    have := hexternal q
    omega
  agree := h.agree
  types := h.types

theorem Exact.plain (h : Exact external rt) : Plain rt rt.gcObjList rt := by
  intro p hp _
  have hmem := (h.linked p).mp hp
  exact ⟨fun _ => hmem, fun _ => h.pos p hmem⟩

/-- **To drop a reference** that someone outside has: no memory is touched that has been freed, the counts stay
exact, and what is still held stays. -/
theorem freeValue_exact (h : Exact external rt) {fuel : Nat} (hfuel : rt.gcObjList.length ≤ fuel)
    {external' : α → Nat} {c : α} (hexternal : ∀ p, external p = external' p + [c].count p) :
    ∃ rt', freeValue fuel rt c = some rt' ∧ Exact external' rt' ∧ rt'.children = rt.children ∧
      rt'.fields = rt.fields ∧ rt'.gcObjType = rt.gcObjType ∧
      (∀ p, rt'.allocated p = true → rt.allocated p = true) ∧
      ∀ p, Held rt.children external' p → rt'.allocated p = true := by
  have hfree := h.freeing hexternal
  have hsettled : Settled rt fuel [] rt := by
    refine ⟨h.tmp, h.zero, fun p hp _ => h.pos p ((h.linked p).mp hp), fun p hp => absurd hp List.not_mem_nil,
      fun l hl hmem => ?_⟩
    have hsub : l ⊆ rt.gcObjList := fun p hp => (h.linked p).mp (hmem p hp)
    have hle : l.length ≤ rt.gcObjList.length := (List.subperm_of_subset hl hsub).length_le
    omega
  obtain ⟨rt', intact', hrt', h', hplain', hside', hsub'⟩ :=
    releases_release settled_keeps (ObjType.rank_lt _) rt.gcObjList [] [] rt hfree h.plain hsettled
  refine ⟨rt', hrt', h'.exact hside'.zero hside'.tmp (fun p hp => h.unmarked p (hsub'.subset hp)) fun p hp => ?_,
    h'.same.children, h'.same.fields, h'.same.types, fun p hp => ?_, fun p hp => h'.allocated_of_intact (h'.held p hp)⟩
  · have halloc := h'.allocated_of_intact hp
    by_cases hvalue : (rt.gcObjType p).isValue = true
    · exact hside'.pos p halloc hvalue
    · exact (hplain' p halloc (Bool.not_eq_true _ ▸ hvalue)).mpr hp
  · have hmem := (h'.allocated p).mp hp
    rw [List.append_nil] at hmem
    exact (h.linked p).mpr (hsub'.subset hmem)

/-- A context that holds the function it made, which holds the context. -/
def sampleContext : Runtime (Fin 3) where
  allocated := fun _ => true
  refCount := fun | 0 => 2 | _ => 1
  gcObjType := fun | 0 => .jsContext | _ => .jsObject
  mark := fun _ => false
  children := fun | 0 => [1] | 1 => [0] | 2 => []
  fields := fun | 0 => [1] | 1 => [0] | 2 => []
  gcObjList := [0, 1, 2]
  gcZeroRefCountList := []
  tmpObjList := []

theorem exact_sampleContext : Exact (fun | 1 => 0 | _ => 1) sampleContext where
  nodup := by decide
  linked := by decide
  zero := rfl
  tmp := rfl
  unmarked := by decide
  closed := by decide
  roots := by decide
  count := by decide
  pos := by decide
  agree := by decide
  types := by decide

theorem freeValue_exact_value : ∃ rt', freeValue 3 sampleContext 2 = some rt' ∧
    Exact (fun | 0 => 1 | _ => 0) rt' ∧ rt'.allocated 1 = true := by
  obtain ⟨rt', hrt', hexact, -, -, -, -, hkeeps⟩ := @freeValue_exact (Fin 3) _ _ sampleContext
    exact_sampleContext 3 (by decide) (fun | 0 => 1 | _ => 0) 2 (by decide)
  exact ⟨rt', hrt', hexact, hkeeps 1 (.child (.root (p := 0) (by decide)) (by decide))⟩

end QuickJSBridge.Gc
