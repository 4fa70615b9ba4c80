import QuickJSBridge.Engine.FreeValue

/-!
# Removing the cycles

After the two passes `tmp_obj_list` has the objects that nothing holds. `gc_free_cycles` releases the fields of
each value among them. A value that others still refer to keeps its memory meanwhile, on
`gc_zero_ref_count_list`, and all that is on this list is freed in the end without a look at its count. Objects
that no `JSValue` points to are only put aside: their last reference is dropped with the fields of some value.

* `Removing` — the lists while the loop runs; `gcFreeCyclesLoop_removed` — the loop ends;
* `Freeing.mem_intact_iff` — then the objects that have their references are those that are held: what is put aside
  has been freed, since it is referred to from objects of higher rank only;
* `runGC_collected` — `JS_RunGC` frees the objects that nothing holds, all of them and no others.
-/

namespace QuickJSBridge.Gc

open RefCounts

variable {α : Type*} [DecidableEq α] {external : α → Nat} {rt₀ rt : Runtime α} {intact ended pending : List α}

/-! ## The loop -/

/-- The lists while `gc_free_cycles` frees the fields of `cur`, of the objects `todo` that were left. -/
structure Removing (rt₀ : Runtime α) (cur : Option α) (todo ended : List α) (rt : Runtime α) : Prop where
  kept : rt.gcObjList = rt₀.gcObjList
  todo : rt.tmpObjList.Sublist todo
  zombies : ∀ p ∈ rt.gcZeroRefCountList, (rt₀.gcObjType p).isValue = true → p ∈ ended ∧ cur ≠ some p
  ended : ∀ p ∈ ended, (rt₀.gcObjType p).isValue = true → cur = some p ∨ p ∈ rt.gcZeroRefCountList

omit [DecidableEq α] in
theorem ne_of_isValue {t : α → ObjType} {p c : α} (hp : (t p).isValue = true) (hc : (t c).isValue = false) :
    p ≠ c := by
  intro heq
  rw [heq, hc] at hp
  cases hp

theorem removing_keeps (hheld : ∀ p ∈ rt₀.gcObjList, Held rt₀.children external p) {cur : Option α}
    {todo : List α} : PhaseKeeps rt₀ external (Removing rt₀ cur todo) Phase.removeCycles.onZero where
  lower := fun ended rt c h _ => ⟨h.kept, h.todo, h.zombies, h.ended⟩
  start := fun ended rt c h hplain => by
    refine ⟨h.kept, h.todo, fun p hp hpv => ?_, fun p hp hpv => ?_⟩
    · obtain ⟨hmem, hcur⟩ := h.zombies p hp hpv
      exact ⟨List.mem_cons_of_mem c hmem, hcur⟩
    · exact h.ended p ((List.mem_cons.mp hp).resolve_left (ne_of_isValue hpv hplain)) hpv
  finish := fun intact ended pending rt c hfree h hplain => by
    have hgc : c ∉ rt.gcObjList := by
      rw [h.kept]
      exact fun hmem => hfree.not_mem_ended (hfree.held c (hheld c hmem)) List.mem_cons_self
    refine ⟨?_, List.erase_sublist.trans h.todo, fun p hp hpv => ?_, fun p hp hpv => ?_⟩
    · show rt.gcObjList.erase c = _
      rw [List.erase_of_not_mem hgc, h.kept]
    · obtain ⟨hmem, hcur⟩ := h.zombies p (List.mem_of_mem_erase hp) hpv
      exact ⟨(List.mem_cons.mp hmem).resolve_left (ne_of_isValue hpv hplain), hcur⟩
    · refine (h.ended p (List.mem_cons_of_mem c hp) hpv).imp_right fun hz => ?_
      exact (List.mem_erase_of_ne (ne_of_isValue hpv hplain)).mpr hz
  value := fun intact ended pending rt c hfree hplain h _ _ _ =>
    ⟨_, intact, rfl, hfree, hplain, ⟨h.kept, h.todo, h.zombies, h.ended⟩, List.Sublist.refl intact⟩

/-- Values only. -/
def AllValues (rt₀ : Runtime α) (ended : List α) : Prop := ∀ p ∈ ended, (rt₀.gcObjType p).isValue = true

/-- One value: its fields are released, and it is freed or put aside. -/
theorem freeGcObject_removing (hheld : ∀ p, p ∈ rt₀.gcObjList ↔ Held rt₀.children external p) {p : α}
    {rest : List α} (hlist : rt.tmpObjList = p :: rest) (hvalue : (rt₀.gcObjType p).isValue = true)
    (h : Freeing rt₀ external intact ended [] rt) (hplain : Plain rt₀ intact rt)
    (hside : Removing rt₀ none rt.tmpObjList ended rt) (hended : AllValues rt₀ ended) :
    ∃ rt' intact' ended', freeGcObject .removeCycles rt p = some rt' ∧
      Freeing rt₀ external intact' ended' [] rt' ∧ Plain rt₀ intact' rt' ∧ Removing rt₀ none rest ended' rt' ∧
      AllValues rt₀ ended' := by
  have htmp : p ∈ rt.tmpObjList := by rw [hlist]; exact List.mem_cons_self
  have halloc : rt.allocated p = true := (h.linked.mem p).mpr (mem_links.mpr (.inr (.inr htmp)))
  have hzombie : p ∉ rt.gcZeroRefCountList := not_mem_zero_of_mem_tmp h.linked.nodup htmp
  have hgc : p ∉ rt.gcObjList := fun hmem => not_mem_tmp_of_mem_gcObj h.linked.nodup hmem htmp
  have hp : p ∈ intact := by
    rcases List.mem_append.mp ((h.allocated p).mp halloc) with hmem | hmem
    · exact hmem
    · exact absurd ((hside.ended p hmem hvalue).resolve_left nofun) hzombie
  have hnot : ¬ Held rt₀.children external p := by
    rw [← hheld p, ← hside.kept]
    exact hgc
  have hplain₀ : Plain rt₀ (intact.erase p) rt := by
    intro q hq hqv
    rw [hplain q hq hqv, List.mem_erase_of_ne (ne_of_isValue hvalue hqv).symm]
  have hside₀ : Removing rt₀ (some p) (p :: rest) (p :: ended) rt := by
    refine ⟨hside.kept, hlist ▸ hside.todo, fun q hq hqv => ?_, fun q hq hqv => ?_⟩
    · refine ⟨List.mem_cons_of_mem p (hside.zombies q hq hqv).1, fun heq => ?_⟩
      exact hzombie (Option.some.inj heq ▸ hq)
    · rcases List.mem_cons.mp hq with rfl | hq
      · exact .inl rfl
      · exact .inr ((hside.ended q hq hqv).resolve_left nofun)
  obtain ⟨rt₁, intact₁, hrt₁, h₁, hplain₁, hside₁, -⟩ :=
    foldlM_releases (f := release Phase.removeCycles.onZero depth)
      (fun c _ => releases_release (removing_keeps fun q hq => (hheld q).mp hq) (ObjType.rank_lt _))
      (h.begin hp hnot) hplain₀ hside₀
  have hgc₁ : p ∉ rt₁.gcObjList := by
    rw [hside₁.kept, ← hside.kept]
    exact hgc
  have hrest : (rt₁.tmpObjList.erase p).Sublist rest := by
    have herase := hside₁.todo.erase p
    rwa [List.erase_cons_head] at herase
  have hkept : rt₁.gcObjList.erase p = rt₀.gcObjList := by rw [List.erase_of_not_mem hgc₁, hside₁.kept]
  have hfree : freeGcObject .removeCycles rt p =
      if rt₁.refCount p ≠ 0 then some (rt₁.toZeroTail p) else some ((rt₁.listDel p).jsFree p) := by
    unfold freeGcObject
    rw [h.same.fields, hrt₁]
    show (if Phase.removeCycles = .removeCycles ∧ rt₁.refCount p ≠ 0 then _ else _) = _
    simp only [true_and]
  have hpz : p ∉ rt₁.gcZeroRefCountList := fun hz => (hside₁.zombies p hz hvalue).2 rfl
  rw [hfree]
  by_cases hmore : rt₁.refCount p = 0
  · rw [if_neg (not_not_intro hmore)]
    refine ⟨_, intact₁, ended, rfl, h₁.finish hmore, fun q hq hqv => hplain₁ q (allocated_jsFree.mp hq).2 hqv,
      ⟨hkept, hrest, fun q hq hqv => ?_, fun q hq hqv => ?_⟩, hended⟩
    · have hq : q ∈ rt₁.gcZeroRefCountList := List.mem_of_mem_erase hq
      have hqp : q ≠ p := fun heq => hpz (heq ▸ hq)
      exact ⟨(List.mem_cons.mp (hside₁.zombies q hq hqv).1).resolve_left hqp, nofun⟩
    · have hqp : q ≠ p := fun heq => (List.nodup_cons.mp (List.nodup_append.mp h₁.nodup).2.1).1 (heq ▸ hq)
      refine .inr ((List.mem_erase_of_ne hqp).mpr ?_)
      exact (hside₁.ended q (List.mem_cons_of_mem p hq) hqv).resolve_left fun heq => hqp (Option.some.inj heq).symm
  · rw [if_pos hmore]
    have halloc₁ : rt₁.allocated p = true := (h₁.allocated p).mpr (by simp)
    have hlist₁ : (rt₁.toZeroTail p).gcZeroRefCountList = rt₁.gcZeroRefCountList ++ [p] := by
      show rt₁.gcZeroRefCountList.erase p ++ [p] = _
      rw [List.erase_of_not_mem hpz]
    refine ⟨_, intact₁, p :: ended, rfl, h₁.moved halloc₁ (.inr rfl), hplain₁,
      ⟨hkept, hrest, fun q hq hqv => ?_, fun q hq hqv => ?_⟩, fun q hq => ?_⟩
    · rw [hlist₁, List.mem_append, List.mem_singleton] at hq
      rcases hq with hq | rfl
      · exact ⟨(hside₁.zombies q hq hqv).1, nofun⟩
      · exact ⟨List.mem_cons_self, nofun⟩
    · rw [hlist₁, List.mem_append, List.mem_singleton]
      exact .inr ((hside₁.ended q hq hqv).symm.imp_right fun heq => (Option.some.inj heq).symm)
    · rcases List.mem_cons.mp hq with rfl | hq
      · exact hvalue
      · exact hended q hq

/-- An object that no `JSValue` points to is put aside. -/
theorem putAside_removing {p : α} {rest : List α} (hlist : rt.tmpObjList = p :: rest)
    (hplainp : (rt₀.gcObjType p).isValue = false) (h : Freeing rt₀ external intact ended [] rt)
    (hside : Removing rt₀ none rt.tmpObjList ended rt) :
    Freeing rt₀ external intact ended [] (rt.toZeroTail p) ∧ Removing rt₀ none rest ended (rt.toZeroTail p) := by
  have htmp : p ∈ rt.tmpObjList := by rw [hlist]; exact List.mem_cons_self
  have halloc : rt.allocated p = true := (h.linked.mem p).mpr (mem_links.mpr (.inr (.inr htmp)))
  have hgc : p ∉ rt.gcObjList := fun hmem => not_mem_tmp_of_mem_gcObj h.linked.nodup hmem htmp
  have hlist₁ : (rt.toZeroTail p).gcZeroRefCountList = rt.gcZeroRefCountList ++ [p] := by
    show rt.gcZeroRefCountList.erase p ++ [p] = _
    rw [List.erase_of_not_mem (not_mem_zero_of_mem_tmp h.linked.nodup htmp)]
  refine ⟨h.moved halloc (.inr rfl), ⟨?_, ?_, fun q hq hqv => ?_, fun q hq hqv => ?_⟩⟩
  · show rt.gcObjList.erase p = _
    rw [List.erase_of_not_mem hgc, hside.kept]
  · show (rt.tmpObjList.erase p).Sublist rest
    rw [hlist, List.erase_cons_head]
  · rw [hlist₁, List.mem_append, List.mem_singleton] at hq
    exact hside.zombies q (hq.resolve_right (ne_of_isValue hqv hplainp)) hqv
  · rw [hlist₁, List.mem_append]
    exact (hside.ended q hq hqv).imp_right .inl

/-- **The loop of `gc_free_cycles` ends**: with each turn `tmp_obj_list` has an object less. -/
theorem gcFreeCyclesLoop_removed (hheld : ∀ p, p ∈ rt₀.gcObjList ↔ Held rt₀.children external p) {fuel : Nat}
    (hfuel : rt.tmpObjList.length ≤ fuel) (h : Freeing rt₀ external intact ended [] rt)
    (hplain : Plain rt₀ intact rt) (hside : Removing rt₀ none rt.tmpObjList ended rt)
    (hended : AllValues rt₀ ended) :
    ∃ rt' intact' ended', gcFreeCyclesLoop fuel rt = some rt' ∧ Freeing rt₀ external intact' ended' [] rt' ∧
      Plain rt₀ intact' rt' ∧ Removing rt₀ none [] ended' rt' ∧ AllValues rt₀ ended' := by
  induction fuel generalizing rt intact ended with
  | zero =>
    have hnil : rt.tmpObjList = [] := List.length_eq_zero_iff.mp (by omega)
    refine ⟨rt, intact, ended, ?_, h, hplain, hnil ▸ hside, hended⟩
    unfold gcFreeCyclesLoop
    rw [hnil]
  | succ fuel ih =>
    cases hlist : rt.tmpObjList with
    | nil =>
      refine ⟨rt, intact, ended, ?_, h, hplain, hlist ▸ hside, hended⟩
      unfold gcFreeCyclesLoop
      rw [hlist]
    | cons p rest =>
      rw [hlist, List.length_cons] at hfuel
      -- what is left after this turn is left to the others
      have hgo : ∀ {rt₁ : Runtime α} {intact₁ ended₁ : List α},
          Freeing rt₀ external intact₁ ended₁ [] rt₁ → Plain rt₀ intact₁ rt₁ →
          Removing rt₀ none rest ended₁ rt₁ → AllValues rt₀ ended₁ →
          ∃ rt' intact' ended', gcFreeCyclesLoop fuel rt₁ = some rt' ∧
            Freeing rt₀ external intact' ended' [] rt' ∧ Plain rt₀ intact' rt' ∧
            Removing rt₀ none [] ended' rt' ∧ AllValues rt₀ ended' := by
        intro rt₁ intact₁ ended₁ h₁ hplain₁ hside₁ hended₁
        have hle := hside₁.todo.length_le
        exact ih (by omega) h₁ hplain₁
          ⟨hside₁.kept, List.Sublist.refl _, hside₁.zombies, hside₁.ended⟩ hended₁
      unfold gcFreeCyclesLoop
      simp only [hlist]
      rw [h.same.types]
      by_cases hvalue : (rt₀.gcObjType p).isValue = true
      · rw [if_pos hvalue]
        obtain ⟨rt₁, intact₁, ended₁, hrt₁, h₁, hplain₁, hside₁, hended₁⟩ :=
          freeGcObject_removing hheld hlist hvalue h hplain hside hended
        rw [hrt₁]
        exact hgo h₁ hplain₁ hside₁ hended₁
      · rw [if_neg hvalue]
        obtain ⟨h₁, hside₁⟩ := putAside_removing hlist (Bool.not_eq_true _ ▸ hvalue) h hside
        exact hgo h₁ hplain hside₁ hended

/-! ## What is left -/

/-- After the loop the objects that have their references are the held ones. An object that was put aside and
still has its references would be counted, and so referred to from another such object, of higher rank. -/
theorem Freeing.mem_intact_iff (hheld : ∀ p, p ∈ rt₀.gcObjList ↔ Held rt₀.children external p)
    (h : Freeing rt₀ external intact ended [] rt) (hplain : Plain rt₀ intact rt)
    (hside : Removing rt₀ none [] ended rt) {p : α} : p ∈ intact ↔ p ∈ rt₀.gcObjList := by
  have haside : ∀ q ∈ intact, q ∉ rt₀.gcObjList → (rt₀.gcObjType q).isValue = false := by
    intro q hq hqg
    have hlinks := mem_links.mp ((h.linked.mem q).mp (h.allocated_of_intact hq))
    rw [hside.kept, List.sublist_nil.mp hside.todo] at hlinks
    have hzero : q ∈ rt.gcZeroRefCountList := (hlinks.resolve_left hqg).resolve_right List.not_mem_nil
    by_contra hvalue
    exact h.not_mem_ended hq (hside.zombies q hzero (by simpa using hvalue)).1
  have hnone : ∀ n q, q ∈ intact → q ∉ rt₀.gcObjList → 3 - (rt₀.gcObjType q).rank ≠ n := by
    intro n
    induction n using Nat.strongRecOn with
    | ind n ih =>
      intro q hq hqg hn
      have halloc := h.allocated_of_intact hq
      have hpos := (hplain q halloc (haside q hq hqg)).mpr hq
      rw [h.count q halloc, List.count_nil] at hpos
      have hroot : external q = 0 := by
        by_contra hext
        exact hqg ((hheld q).mpr (.root (Nat.pos_of_ne_zero hext)))
      obtain ⟨r, hr, hrq⟩ := incoming_pos_iff.mp (show 0 < incoming rt₀.children intact q from by omega)
      have hrg : r ∉ rt₀.gcObjList := by
        rw [hheld r]
        exact fun hrh => hqg ((hheld q).mpr (.child hrh hrq))
      have hrank := ObjType.rank_lt_of_mayHold (haside r hr hrg) (h.types r hr q hrq)
      have hlt := (rt₀.gcObjType r).rank_lt
      exact ih (3 - (rt₀.gcObjType r).rank) (by omega) r hr hrg rfl
  refine ⟨fun hp => ?_, fun hp => h.held p ((hheld p).mp hp)⟩
  by_contra hpg
  exact hnone _ p hp hpg rfl

/-- The runtime without the memory of the objects in `l`. -/
def Runtime.freeAll (rt : Runtime α) (l : List α) : Runtime α :=
  { rt with allocated := fun p => rt.allocated p && decide (p ∉ l) }

theorem foldlM_freeZombie {l : List α} (h : ∀ p ∈ l, (rt.gcObjType p).isValue = true) :
    l.foldlM freeZombie rt = some (rt.freeAll l) := by
  induction l generalizing rt with
  | nil =>
    show some rt = _
    simp [Runtime.freeAll]
  | cons p l ih =>
    have hp : freeZombie rt p = some (rt.jsFree p) := if_pos (h p List.mem_cons_self)
    rw [List.foldlM_cons, hp]
    have hrest : ∀ q ∈ l, ((rt.jsFree p).gcObjType q).isValue = true := fun q hq =>
      h q (List.mem_cons_of_mem p hq)
    show l.foldlM freeZombie (rt.jsFree p) = _
    rw [ih hrest]
    have halloc : ∀ q, (Function.update rt.allocated p false q && decide (q ∉ l)) =
        (rt.allocated q && decide (q ∉ p :: l)) := by
      intro q
      by_cases hq : q = p
      · simp [hq]
      · simp [hq]
    exact congrArg some (congrArg (fun a => { rt with allocated := a }) (funext halloc))

/-! ## A collection -/

/-- The state in which `gc_free_cycles` starts. -/
theorem Judged.freeing (h : Exact external rt₀) (hj : Judged rt₀ external rt) :
    Freeing rt external (rt.gcObjList ++ rt.tmpObjList) [] [] rt where
  same := ⟨rfl, rfl, rfl, rfl⟩
  linked := by
    have hlinks : rt.links = rt.gcObjList ++ rt.tmpObjList := by
      unfold Runtime.links
      rw [hj.same.zero, h.zero, List.append_nil]
    refine ⟨?_, fun p => ?_⟩
    · rw [hlinks, hj.split.nodup_iff]
      exact h.nodup
    · rw [hlinks, hj.same.allocated, h.linked p, hj.split.mem_iff]
  nodup := by
    rw [List.append_nil, hj.split.nodup_iff]
    exact h.nodup
  allocated := fun p => by rw [List.append_nil, hj.same.allocated, h.linked p, hj.split.mem_iff]
  count := fun p hp => by
    rw [hj.same.allocated, h.linked p] at hp
    rw [hj.count p hp, h.count p hp, hj.same.children, incoming_perm hj.split, List.count_nil, Nat.add_zero]
  closed := fun p hp c hc => by
    rw [hj.same.children] at hc
    rw [hj.same.allocated, h.linked c]
    exact h.closed p (hj.split.mem_iff.mp hp) c hc
  pending := fun c hc => absurd hc List.not_mem_nil
  held := fun p hp => by
    rw [hj.same.children] at hp
    exact List.mem_append_left _ ((hj.kept p).mpr hp)
  agree := fun p hp => by
    rw [hj.same.fields, hj.same.children]
    exact h.agree p (hj.split.mem_iff.mp hp)
  types := fun p hp => by
    rw [hj.same.types, hj.same.children]
    exact h.types p (hj.split.mem_iff.mp hp)

theorem Judged.plain (h : Exact external rt₀) (hj : Judged rt₀ external rt) :
    Plain rt (rt.gcObjList ++ rt.tmpObjList) rt := by
  intro p hp _
  rw [hj.same.allocated, h.linked p] at hp
  rw [hj.count p hp, hj.split.mem_iff]
  exact ⟨fun _ => hp, fun _ => h.pos p hp⟩

/-- What a collection does: the objects that are held stay as they are, the others are freed. -/
structure Collected (rt₀ : Runtime α) (external : α → Nat) (rt : Runtime α) : Prop where
  exact : Exact external rt
  children : rt.children = rt₀.children
  fields : rt.fields = rt₀.fields
  types : rt.gcObjType = rt₀.gcObjType
  allocated : ∀ p, rt.allocated p = true ↔ Held rt₀.children external p

theorem gcFreeCycles_collected (h : Exact external rt₀) (hj : Judged rt₀ external rt) {fuel : Nat}
    (hfuel : rt.tmpObjList.length ≤ fuel) :
    ∃ rt', gcFreeCycles fuel rt = some rt' ∧ Collected rt₀ external rt' := by
  have hheld : ∀ p, p ∈ rt.gcObjList ↔ Held rt.children external p := by
    rw [hj.same.children]
    exact hj.kept
  have hstart : Removing rt none rt.tmpObjList [] rt := by
    refine ⟨rfl, List.Sublist.refl _, fun p hp => ?_, fun p hp => absurd hp List.not_mem_nil⟩
    rw [hj.same.zero, h.zero] at hp
    cases hp
  obtain ⟨rt₁, intact, ended, hrt₁, hfree, hplain, hside, hended⟩ :=
    gcFreeCyclesLoop_removed hheld hfuel (hj.freeing h) (hj.plain h) hstart fun p hp => absurd hp List.not_mem_nil
  have hintact : ∀ p, p ∈ intact ↔ p ∈ rt.gcObjList := fun p => hfree.mem_intact_iff hheld hplain hside
  have hnodup : rt.gcObjList.Nodup := by
    rw [← hside.kept]
    exact (nodup_lists hfree.linked.nodup).1
  have hperm : intact.Perm rt.gcObjList := (List.perm_ext_iff_of_nodup hfree.nodup_intact hnodup).mpr hintact
  have hkept : ∀ p, p ∈ rt₁.gcObjList ↔ Held rt₀.children external p := by
    rw [hside.kept]
    exact hj.kept
  -- what was put aside has no references left, so these are the values that ended
  have hzero : ∀ p, p ∈ rt₁.gcZeroRefCountList ↔ rt₁.allocated p = true ∧ p ∉ rt₁.gcObjList := by
    intro p
    rw [hfree.linked.mem p, mem_links, List.sublist_nil.mp hside.todo]
    refine ⟨fun hz => ⟨.inr (.inl hz), fun hg => not_mem_zero_of_mem_gcObj hfree.linked.nodup hg hz⟩, fun hp => ?_⟩
    exact (hp.1.resolve_left hp.2).resolve_right List.not_mem_nil
  have hzombies : ∀ p ∈ rt₁.gcZeroRefCountList, (rt₁.gcObjType p).isValue = true := by
    intro p hp
    obtain ⟨halloc, hg⟩ := (hzero p).mp hp
    rw [hside.kept, ← hintact p] at hg
    rw [hfree.same.types]
    exact hended p ((List.mem_append.mp ((hfree.allocated p).mp halloc)).resolve_left hg)
  have halloc : ∀ p, (rt₁.freeAll rt₁.gcZeroRefCountList).allocated p = true ↔ p ∈ rt₁.gcObjList := by
    intro p
    show (rt₁.allocated p && decide (p ∉ rt₁.gcZeroRefCountList)) = true ↔ _
    rw [Bool.and_eq_true, decide_eq_true_iff, hzero p]
    refine ⟨fun hp => by_contra fun hg => hp.2 ⟨hp.1, hg⟩, fun hg => ⟨?_, fun hz => hz.2 hg⟩⟩
    exact (hfree.linked.mem p).mpr (mem_links.mpr (.inl hg))
  have hmem₀ : ∀ p ∈ rt₁.gcObjList, p ∈ rt₀.gcObjList := by
    intro p hp
    rw [hside.kept] at hp
    exact hj.split.mem_iff.mp (List.mem_append_left _ hp)
  have hchildren : rt₁.children = rt₀.children := hfree.same.children.trans hj.same.children
  have hcount : ∀ p ∈ rt₁.gcObjList,
      rt₁.refCount p = external p + incoming rt₁.children rt₁.gcObjList p := by
    intro p hp
    rw [hfree.count p ((hfree.linked.mem p).mpr (mem_links.mpr (.inl hp))), hside.kept, hfree.same.children,
      incoming_perm hperm, List.count_nil, Nat.add_zero]
  refine ⟨{ rt₁.freeAll rt₁.gcZeroRefCountList with gcZeroRefCountList := [] }, ?_, ?_, hchildren,
    hfree.same.fields.trans hj.same.fields, hfree.same.types.trans hj.same.types,
    fun p => (halloc p).trans (hkept p)⟩
  · unfold gcFreeCycles
    rw [hrt₁]
    show (do let rt ← rt₁.gcZeroRefCountList.foldlM freeZombie rt₁; some { rt with gcZeroRefCountList := [] }) = _
    rw [foldlM_freeZombie hzombies]
    rfl
  · exact {
      nodup := hside.kept ▸ hnodup
      linked := halloc
      zero := rfl
      tmp := List.sublist_nil.mp hside.todo
      unmarked := fun p hp => by
        show rt₁.mark p = false
        rw [hfree.same.mark]
        exact hj.unmarked p (hside.kept ▸ hp)
      closed := fun p hp c hc => by
        have hc : c ∈ rt₀.children p := hchildren ▸ hc
        exact (hkept c).mpr (.child ((hkept p).mp hp) hc)
      roots := fun p hp => (hkept p).mpr (.root hp)
      count := hcount
      pos := fun p hp => by
        show 0 < rt₁.refCount p
        have heq := hcount p hp
        cases (hkept p).mp hp with
        | root hpos => omega
        | child hq hc =>
          have := incoming_pos ((hkept _).mpr hq) (hchildren ▸ hc : p ∈ rt₁.children _)
          omega
      agree := fun p hp => by
        show (rt₁.fields p).Perm (rt₁.children p)
        rw [hchildren, hfree.same.fields, hj.same.fields]
        exact h.agree p (hmem₀ p hp)
      types := fun p hp => by
        show ∀ c ∈ rt₁.children p, (rt₁.gcObjType p).mayHold (rt₁.gcObjType c) = true
        rw [hchildren, hfree.same.types, hj.same.types]
        exact h.types p (hmem₀ p hp) }

/-- **`JS_RunGC`**: no assertion fails, no memory is touched that has been freed, the counts stay exact, and the
objects that are left are those that are held. -/
theorem runGC_collected (h : Exact external rt₀) {fuel : Nat} (hfuel : rt₀.gcObjList.length ≤ fuel) :
    ∃ rt', runGC fuel rt₀ = some rt' ∧ Collected rt₀ external rt' := by
  obtain ⟨rt₁, hrt₁, htaken⟩ := gcDecref_taken h
  obtain ⟨rt₂, hrt₂, hjudged⟩ := gcScan_judged h hfuel htaken
  have hlength : rt₂.tmpObjList.length ≤ fuel := by
    have heq := hjudged.split.length_eq
    rw [List.length_append] at heq
    omega
  obtain ⟨rt₃, hrt₃, hcollected⟩ := gcFreeCycles_collected h hjudged hlength
  refine ⟨rt₃, ?_, hcollected⟩
  unfold runGC
  rw [hrt₁]
  show (do let rt ← gcScan fuel rt₁; gcFreeCycles fuel rt) = _
  rw [hrt₂]
  exact hrt₃

/-- Objects `0` and `1` that refer to each other, the shape of both, and its prototype, which is held. -/
def sampleCycle : Runtime (Fin 4) where
  allocated := fun _ => true
  refCount := fun | 0 | 1 => 1 | _ => 2
  gcObjType := fun | 2 => .shape | _ => .jsObject
  mark := fun _ => false
  children := fun | 0 => [2, 1] | 1 => [2, 0] | 2 => [3] | 3 => []
  fields := fun | 0 => [1, 2] | 1 => [0, 2] | 2 => [3] | 3 => []
  gcObjList := [3, 2, 0, 1]
  gcZeroRefCountList := []
  tmpObjList := []

theorem exact_sampleCycle : Exact (fun | 3 => 1 | _ => 0) sampleCycle where
  nodup := by decide
  linked := by decide
  zero := rfl
  tmp := rfl
  unmarked := by decide
  closed := by decide
  roots := by decide
  count := by decide
  pos := by decide
  agree := by decide
  types := by decide

theorem runGC_collected_cycle : ∃ rt', runGC 4 sampleCycle = some rt' ∧
    Collected sampleCycle (fun | 3 => 1 | _ => 0) rt' :=
  runGC_collected exact_sampleCycle (by decide)

example : (runGC 4 sampleCycle).map (fun rt => (rt.gcObjList, rt.refCount 3)) = some ([3], 1) := by decide

end QuickJSBridge.Gc
