import QuickJSBridge.Java.Rendezvous.Call

/-!
# The answer of a call

* `Call.Met` — the call returns only after the event has ended, with its value or what it threw; the flag is set
  and the caller notified however the event ended; and what both do next leads to that answer;
* `Call.Undisturbed` — the event does not end in an `Error` and is not dropped, and `wait()` does not return
  before the outcome of the event is in the cells;
* `Call.Inv` — what undisturbed moves keep, and why the call is met;
* `Call.Inv.undisturbed` — after any other move the parties may go on to a state that is not met.
-/

namespace QuickJSBridge.Rendezvous

variable {V X : Type}

/-! ## The property and the guard -/

/-- The owner thread has left the runnable. -/
def Runnable.isLeft : Runnable V X → Bool
  | finished | died => true
  | _ => false

structure Call.Met (k : Call V X) : Prop where
  returns : ∀ r, k.caller = .done r → ∃ o, k.event = .ended o ∧ r = k.kind.answer o
  signals : ∀ o, k.event = .ended o → k.runnable.isLeft = true → k.flag = true ∧ k.caller ≠ .waiting
  answers : ∀ o, k.event = .ended o → ∃ k', k.Goes k' ∧ k'.caller = .done (k.kind.answer o)

/-- The outcome of the event is in the cells: after the assignment, or where it assigns `null` to `null`. -/
def Runnable.stored : Runnable V X → Bool
  | locking | setting | notifying | unlocking | finished => true
  | assigning v => v.isNone
  | _ => false

def Call.Undisturbed (k : Call V X) : Move V X → Prop
  | .wake => k.runnable.stored = true
  | .serve released => k.kind ≠ .post → released = false
  | .finish (.error _) => False
  | _ => True

/-! ## The outcome and the cells -/

/-- What a caller that reads the cells now ends with. -/
def Call.reply (k : Call V X) : Reply V X :=
  match k.error with
  | some x => .threw x
  | none => .returned k.result

/-- Nothing was written yet. -/
def Call.Blank (k : Call V X) : Prop := k.value = none ∧ k.error = none

def Call.Cells (k : Call V X) : Prop :=
  match k.runnable with
  | .queued => k.event = .queued ∧ k.Blank
  | .running => k.event = .running ∧ k.Blank
  | .assigning v => k.event = .ended (.value v) ∧ k.kind = .post ∧ k.Blank
  | .catching x => k.event = .ended (.runtimeException x) ∧ k.Blank
  | .died => False
  | .locking | .setting | .notifying | .unlocking | .finished =>
    ∃ o, k.event = .ended o ∧ k.reply = k.kind.answer o

/-- The caller is past its wait. -/
def Caller.past : Caller V X → Bool
  | waking | leaving | catching | fetching | done _ => true
  | _ => false

structure Call.Data (k : Call V X) : Prop where
  cells : k.Cells
  past : k.caller.past = true → k.runnable.stored = true
  fetching : k.caller = .fetching → k.error = none
  done : ∀ r, k.caller = .done r → r = k.reply

section

variable {k k' k'' : Call V X} {m : Move V X}

theorem reply_of_blank (h : k.Blank) : k.reply = .returned none := by
  unfold Call.reply Call.result
  rw [h.2, h.1]
  cases k.kind <;> rfl

theorem Call.Data.reply (hk : k.Data) (h : k.runnable.stored = true) :
    ∃ o, k.event = .ended o ∧ k.reply = k.kind.answer o := by
  have hcells := hk.cells
  unfold Call.Cells at hcells
  cases hr : k.runnable with
  | queued | running | catching | died =>
    rw [hr] at h
    cases h
  | assigning v =>
    rw [hr] at h hcells
    obtain ⟨hevent, hkind, hblank⟩ := hcells
    -- `null` is what the cell holds already
    have hv : v = none := Option.isNone_iff_eq_none.mp h
    refine ⟨_, hevent, ?_⟩
    rw [reply_of_blank hblank, hkind, hv]
    rfl
  | locking | setting | notifying | unlocking | finished =>
    rw [hr] at hcells
    exact hcells

theorem stored_of_hasSet {r : Runnable V X} (h : r.hasSet = true) : r.stored = true := by
  cases r with
  | notifying | unlocking | finished => rfl
  | _ => cases h

/-- The caller goes to a point before or in `wait()`. -/
theorem Call.Data.goto (hk : k.Data) {p : Caller V X} (hpast : p.past = false) : { k with caller := p }.Data where
  cells := hk.cells
  past h := by cases hpast.symm.trans h
  fetching h := by cases hpast.symm.trans (congrArg Caller.past h)
  done r h := by cases hpast.symm.trans (congrArg Caller.past h)

/-- The caller goes to a point past the wait. -/
theorem Call.Data.gotoPast (hk : k.Data) {p : Caller V X} (hstored : k.runnable.stored = true)
    (hfetching : p = .fetching → k.error = none) (hdone : ∀ r, p = .done r → r = k.reply) :
    { k with caller := p }.Data where
  cells := hk.cells
  past _ := hstored
  fetching := hfetching
  done := hdone

theorem Call.Data.callerGoes {p : Caller V X} (hk : k.Data) (hset : k.flag = k.runnable.hasSet)
    (h : k.CallerGoes p) : { k with caller := p }.Data := by
  cases h with
  | enter | park | wait => exact hk.goto rfl
  | pass _ hflag =>
    rw [hflag] at hset
    exact hk.gotoPast (stored_of_hasSet hset.symm) (fun h => by cases h) fun r h => by cases h
  | reenter hp _ | leave hp =>
    exact hk.gotoPast (hk.past (by rw [hp]; rfl)) (fun h => by cases h) fun r h => by cases h
  | fetch hp herror =>
    exact hk.gotoPast (hk.past (by rw [hp]; rfl)) (fun _ => herror) fun r h => by cases h
  | throws x hp herror =>
    refine hk.gotoPast (hk.past (by rw [hp]; rfl)) (fun h => by cases h) fun r h => ?_
    cases h
    show _ = k.reply
    unfold Call.reply
    rw [herror]
  | returns hp =>
    refine hk.gotoPast (hk.past (by rw [hp]; rfl)) (fun h => by cases h) fun r h => ?_
    cases h
    show _ = k.reply
    unfold Call.reply
    rw [hk.fetching hp]

/-- The runnable writes its outcome to a cell. -/
theorem Call.Data.assign {v : Option V} {error : Option X} (hk : k.Data) (hblocks : k.kind.blocks = true)
    (hcells : ∃ o, k.event = .ended o ∧ { k with value := v, error := error }.reply = k.kind.answer o)
    (hsame : k.runnable.stored = true → v = k.value ∧ error = k.error) :
    { k with value := v, error := error, runnable := Call.afterRun k.kind }.Data := by
  rw [afterRun_of_blocks hblocks]
  exact {
    cells := hcells
    past := fun _ => rfl
    fetching := fun hp => by
      show error = none
      rw [(hsame (hk.past (congrArg Caller.past hp))).2]
      exact hk.fetching hp
    done := fun r hp => by
      obtain ⟨rfl, rfl⟩ := hsame (hk.past (congrArg Caller.past hp))
      exact hk.done r hp }

theorem eq_of_notified_eq {p q : Caller V X} (h : p.notified = q) (hq : q ≠ .waking) : p = q := by
  cases p with
  | waiting => exact absurd h.symm hq
  | _ => exact h

theorem Call.Data.runnableGoes (hk : k.Data) (hblocks : k.kind.blocks = true) (h : k.RunnableGoes k') :
    k'.Data := by
  have hcells := hk.cells
  unfold Call.Cells at hcells
  cases h with
  | assign v hr =>
    rw [hr] at hcells
    obtain ⟨hevent, hkind, hblank⟩ := hcells
    refine hk.assign hblocks ⟨_, hevent, ?_⟩ fun hstored => ?_
    · unfold Call.reply Call.result
      dsimp only
      rw [hblank.2, hkind]
      rfl
    · rw [hr] at hstored
      rw [hblank.1]
      exact ⟨Option.isNone_iff_eq_none.mp hstored, rfl⟩
  | catches x hr =>
    rw [hr] at hcells
    refine hk.assign hblocks ⟨_, hcells.1, ?_⟩ fun hstored => ?_
    · show Reply.threw x = _
      cases k.kind <;> rfl
    · rw [hr] at hstored
      cases hstored
  | lock hr | set hr | unlock hr => exact {
      cells := hk.reply (by rw [hr]; rfl)
      past := fun _ => rfl
      fetching := hk.fetching
      done := hk.done }
  | notify hr => exact {
      cells := hk.reply (by rw [hr]; rfl)
      past := fun _ => rfl
      fetching := fun hp => hk.fetching (eq_of_notified_eq hp fun h => by cases h)
      done := fun r hp => hk.done r (eq_of_notified_eq hp fun h => by cases h) }

/-! ## The invariant of a call -/

structure Call.Inv (k : Call V X) : Prop extends Call.Control k, Call.Data k

theorem inv_posted {kind : Kind} (hblocks : kind.blocks = true) : (Call.posted kind : Call V X).Inv := by
  have hcaller : (Call.posted kind : Call V X).caller = .entering := by
    unfold Call.posted
    rw [hblocks]
    rfl
  exact {
    toControl := control_posted
    toData := {
      cells := ⟨rfl, rfl, rfl⟩
      past := fun h => by rw [hcaller] at h; cases h
      fetching := fun h => by rw [hcaller] at h; cases h
      done := fun r h => by rw [hcaller] at h; cases h } }

/-- The two parties go on: the invariant holds of every call that waits, and the event is as it was. -/
theorem Call.Inv.goes (hk : k.Inv) (hblocks : k.kind.blocks = true) (h : k.Goes k') :
    k'.Inv ∧ k'.kind = k.kind ∧ k'.event = k.event := by
  refine h.invariant (I := fun k' => k'.Inv ∧ k'.kind = k.kind ∧ k'.event = k.event) ?_ ?_ ⟨hk, rfl, rfl⟩
  · intro k' p ⟨hinv, hkind, hevent⟩ hgoes
    exact ⟨⟨hinv.toControl.callerGoes hgoes, hinv.toData.callerGoes hinv.flag hgoes⟩, hkind, hevent⟩
  · intro k' k'' ⟨hinv, hkind, hevent⟩ hgoes
    have hblocks' : k'.kind.blocks = true := by rw [hkind]; exact hblocks
    obtain ⟨hkind', hevent'⟩ := kind_event_runnableGoes hgoes
    exact ⟨⟨hinv.toControl.runnableGoes hblocks' hgoes, hinv.toData.runnableGoes hblocks' hgoes⟩,
      hkind'.trans hkind, hevent'.trans hevent⟩

theorem Call.Inv.hasRun {o : Outcome V X} (hk : k.Inv) (ho : k.event = .ended o) : k.runnable.hasRun = true := by
  have hcells := hk.cells
  unfold Call.Cells at hcells
  cases hr : k.runnable with
  | queued | running =>
    rw [hr, ho] at hcells
    cases hcells.1
  | died =>
    rw [hr] at hcells
    cases hcells
  | _ => rfl

theorem Call.Inv.returns {r : Reply V X} (hk : k.Inv) (hr : k.caller = .done r) :
    ∃ o, k.event = .ended o ∧ r = k.kind.answer o := by
  obtain ⟨o, hevent, hreply⟩ := hk.reply (hk.past (by rw [hr]; rfl))
  exact ⟨o, hevent, (hk.done r hr).trans hreply⟩

theorem Call.Inv.met (hk : k.Inv) (hblocks : k.kind.blocks = true) : k.Met where
  returns r hr := hk.returns hr
  signals o ho hleft := by
    have hrun := hk.hasRun ho
    have hflag := hk.flag
    have hwaiting := hk.waiting
    cases hr : k.runnable with
    | finished =>
      rw [hr] at hflag hwaiting
      exact ⟨hflag, fun h => by cases hwaiting h⟩
    | died => rw [hr] at hrun; cases hrun
    | _ => rw [hr] at hleft; cases hleft
  answers o ho := by
    obtain ⟨k', r, hgoes, hr⟩ := hk.toControl.exists_done hblocks (hk.hasRun ho)
    obtain ⟨hk', hkind, hevent⟩ := hk.goes hblocks hgoes
    obtain ⟨o', ho', hanswer⟩ := hk'.returns hr
    rw [hevent, ho] at ho'
    cases ho'
    rw [hkind] at hanswer
    exact ⟨k', hgoes, by rw [hr, hanswer]⟩

/-- The runnable goes on to a point before its outcome is stored, or before its `synchronized` block. -/
theorem Call.Inv.run {e : Event V X} {r : Runnable V X} (hk : k.Inv) (hold : k.runnable.stored = false)
    (hmonitor : r.inMonitor = false) (hset : r.hasSet = false) (hnotified : r.hasNotified = false)
    (hcells : { k with event := e, runnable := r }.Cells) : { k with event := e, runnable := r }.Inv where
  exclusive _ := hmonitor
  flag := by
    have hflag := hk.flag
    show k.flag = r.hasSet
    rw [hset]
    cases hset' : k.runnable.hasSet with
    | true => cases hold.symm.trans (stored_of_hasSet hset')
    | false => rw [hflag, hset']
  parking := hk.parking
  waiting _ := hnotified
  cells := hcells
  past h := by cases hold.symm.trans (hk.past h)
  fetching := hk.fetching
  done := hk.done

theorem afterEvent_value_of_ne {kind : Kind} {v : Option V} (h : kind ≠ .post) :
    (Call.afterEvent kind (.value v) : Runnable V X) = Call.afterRun kind := by
  cases kind with
  | post => exact absurd rfl h
  | postVoid block => rfl

theorem answer_value_of_ne {kind : Kind} {v : Option V} (h : kind ≠ .post) :
    (kind.answer (.value v) : Reply V X) = .returned none := by
  cases kind with
  | post => exact absurd rfl h
  | postVoid block => rfl

theorem Call.Inv.serve {released : Bool} (hk : k.Inv) (hreleased : k.kind ≠ .post → released = false)
    (h : k.serve released = some k') : k'.Inv := by
  unfold Call.serve at h
  have hcells := hk.cells
  unfold Call.Cells at hcells
  split at h
  · rename_i hr
    rw [hr] at hcells
    split at h
    · rename_i hdrop
      rw [hreleased hdrop.1] at hdrop
      cases hdrop.2
    · rw [← Option.some.inj h]
      refine hk.run (by rw [hr]; rfl) rfl rfl rfl ?_
      exact ⟨rfl, hcells.2⟩
  · cases h

theorem Call.Inv.finish {o : Outcome V X} (hk : k.Inv) (hblocks : k.kind.blocks = true)
    (ho : ∀ x, o ≠ .error x) (h : k.finish o = some k') : k'.Inv := by
  unfold Call.finish at h
  have hcells := hk.cells
  unfold Call.Cells at hcells
  split at h
  · rename_i hr
    rw [hr] at hcells
    have hold : k.runnable.stored = false := by rw [hr]; rfl
    rw [← Option.some.inj h]
    cases o with
    | error x => exact absurd rfl (ho x)
    | runtimeException x =>
      refine hk.run hold rfl rfl rfl ?_
      exact ⟨rfl, hcells.2⟩
    | value v =>
      by_cases hkind : k.kind = .post
      · have hafter : (Call.afterEvent k.kind (.value v) : Runnable V X) = .assigning v := by rw [hkind]; rfl
        rw [hafter]
        refine hk.run hold rfl rfl rfl ?_
        exact ⟨rfl, hkind, hcells.2⟩
      · rw [afterEvent_value_of_ne hkind, afterRun_of_blocks hblocks]
        refine hk.run hold rfl rfl rfl ?_
        refine ⟨_, rfl, ?_⟩
        exact (reply_of_blank hcells.2).trans (answer_value_of_ne hkind).symm
  · cases h

theorem Call.Inv.wake (hk : k.Inv) (hstored : k.runnable.stored = true) (h : k.wake = some k') :
    k'.Inv := by
  unfold Call.wake at h
  split at h
  · rw [← Option.some.inj h]
    refine ⟨hk.toControl.goto ?_ ?_ ?_, hk.toData.gotoPast hstored ?_ ?_⟩
    · exact fun h => by cases h
    · exact fun h => by cases h
    · exact fun h => by cases h
    · exact fun h => by cases h
    · exact fun r h => by cases h
  · cases h

theorem kind_step (h : k.step m = some k') : k'.kind = k.kind := by
  cases m with
  | caller =>
    obtain ⟨p, -, rfl⟩ := callerNext_iff.mp h
    rfl
  | runnable => exact (kind_event_runnableGoes (runnableNext_iff.mp h)).1
  | wake =>
    have hwake : k.wake = some k' := h
    unfold Call.wake at hwake
    split at hwake
    · rw [← Option.some.inj hwake]
    · cases hwake
  | serve released =>
    have hserve : k.serve released = some k' := h
    unfold Call.serve at hserve
    split at hserve
    · split at hserve
      · rw [← Option.some.inj hserve]
      · rw [← Option.some.inj hserve]
    · cases hserve
  | finish o =>
    have hfinish : k.finish o = some k' := h
    unfold Call.finish at hfinish
    split at hfinish
    · rw [← Option.some.inj hfinish]
    · cases hfinish

theorem Call.Inv.step (hk : k.Inv) (hblocks : k.kind.blocks = true) (hm : k.Undisturbed m)
    (h : k.step m = some k') : k'.Inv := by
  cases m with
  | caller => exact (hk.goes hblocks (Call.Goes.refl.head (Or.inl rfl) h)).1
  | wake => exact hk.wake hm h
  | serve released => exact hk.serve hm h
  | finish o => exact hk.finish hblocks (fun x ho => by rw [ho] at hm; exact hm) h
  | runnable => exact (hk.goes hblocks (Call.Goes.refl.head (Or.inr rfl) h)).1

/-! ## What a disturbance leads to -/

theorem stored_of_inMonitor {r : Runnable V X} (h : r.inMonitor = true) : r.stored = true := by
  cases r with
  | setting | notifying | unlocking => rfl
  | _ => cases h

theorem Call.Data.blank (hk : k.Data) (hold : k.runnable.stored = false) : k.Blank := by
  have hcells := hk.cells
  unfold Call.Cells at hcells
  cases hr : k.runnable with
  | queued | running | catching x =>
    rw [hr] at hcells
    exact hcells.2
  | assigning v =>
    rw [hr] at hcells
    exact hcells.2.2
  | died =>
    rw [hr] at hcells
    cases hcells
  | locking | setting | notifying | unlocking | finished =>
    rw [hr] at hold
    cases hold

/-- Before the outcome is in the cells `null` is not the answer. -/
theorem Call.Data.null_ne_answer {o : Outcome V X} (hk : k.Data) (hold : k.runnable.stored = false)
    (ho : k.event = .ended o) : .returned none ≠ k.kind.answer o := by
  have hcells := hk.cells
  unfold Call.Cells at hcells
  intro hanswer
  cases hr : k.runnable with
  | queued | running =>
    rw [hr, ho] at hcells
    cases hcells.1
  | assigning v =>
    rw [hr, ho] at hcells
    obtain ⟨hevent, hkind, -⟩ := hcells
    cases hevent
    rw [hkind] at hanswer
    cases hanswer
    rw [hr] at hold
    cases hold
  | catching x =>
    rw [hr, ho] at hcells
    cases hcells.1
    cases hkind : k.kind with
    | _ => rw [hkind] at hanswer; cases hanswer
  | died =>
    rw [hr] at hcells
    cases hcells
  | locking | setting | notifying | unlocking | finished =>
    rw [hr] at hold
    cases hold

/-- A caller that wakes before the outcome is in the cells goes on to return `null`. -/
theorem Call.Inv.not_met_waking (hk : k.Inv) (hold : k.runnable.stored = false) :
    ∃ k', { k with caller := .waking }.Goes k' ∧ ¬ k'.Met := by
  have hblank := hk.blank hold
  have hfree : k.runnable.inMonitor = false := by
    cases hmonitor : k.runnable.inMonitor with
    | true => cases hold.symm.trans (stored_of_inMonitor hmonitor)
    | false => rfl
  refine ⟨{ k with caller := .done (.returned k.result) }, ?_, fun hmet => ?_⟩
  · refine .caller (.reenter rfl hfree) ?_
    refine .caller (.leave rfl) ?_
    refine .caller (.fetch rfl hblank.2) ?_
    exact .caller (.returns rfl) .refl
  · obtain ⟨o, ho, hanswer⟩ := hmet.returns _ rfl
    apply hk.null_ne_answer hold ho
    show _ = k.kind.answer o
    rw [← reply_of_blank hblank, ← hanswer]
    unfold Call.reply
    rw [hblank.2]

/-- The call of a dropped event returns, although the event has not run. -/
theorem Call.Inv.not_met_dropped (hk : k.Inv) (hblocks : k.kind.blocks = true) (hr : k.runnable = .queued) :
    ∃ k', { k with event := .dropped, runnable := Call.afterRun k.kind }.Goes k' ∧ ¬ k'.Met := by
  rw [afterRun_of_blocks hblocks]
  have hflag := hk.flag
  rw [hr] at hflag
  have hcontrol : { k with event := .dropped, runnable := .locking }.Control := {
    exclusive := fun _ => rfl
    flag := hflag
    parking := hk.parking
    waiting := fun _ => rfl }
  obtain ⟨k', r, hgoes, hdone⟩ := hcontrol.exists_done hblocks rfl
  have hevent : k'.event = .dropped :=
    hgoes.invariant (I := fun k => k.event = .dropped) (fun _ _ h _ => h)
      (fun _ _ h hgoes => (kind_event_runnableGoes hgoes).2.trans h) rfl
  refine ⟨k', hgoes, fun hmet => ?_⟩
  obtain ⟨o, ho, -⟩ := hmet.returns r hdone
  cases hevent.symm.trans ho

/-- An `Error` leaves the runnable with the flag unset. -/
theorem Call.Inv.not_met_error {x : X} (hk : k.Inv) (hr : k.runnable = .running) :
    ¬ { k with event := .ended (.error x), runnable := .died }.Met := by
  intro hmet
  have hflag := hk.flag
  rw [hr] at hflag
  cases hflag.symm.trans (hmet.signals _ rfl rfl).1

theorem Call.Inv.undisturbed (hk : k.Inv) (hblocks : k.kind.blocks = true) (h : k.step m = some k')
    (hmet : ∀ k'', k'.Goes k'' → k''.Met) : k.Undisturbed m := by
  cases m with
  | caller | runnable => trivial
  | wake =>
    show k.runnable.stored = true
    by_contra hold
    have hwake : k.wake = some k' := h
    unfold Call.wake at hwake
    split at hwake
    · rw [← Option.some.inj hwake] at hmet
      obtain ⟨k'', hgoes, hnot⟩ := hk.not_met_waking (by simpa using hold)
      exact hnot (hmet k'' hgoes)
    · cases hwake
  | serve released =>
    intro hkind
    cases hreleased : released with
    | false => rfl
    | true =>
      have hserve : k.serve true = some k' := hreleased ▸ h
      unfold Call.serve at hserve
      split at hserve
      · rename_i hr
        rw [if_pos ⟨hkind, rfl⟩] at hserve
        rw [← Option.some.inj hserve] at hmet
        obtain ⟨k'', hgoes, hnot⟩ := hk.not_met_dropped hblocks hr
        exact absurd (hmet k'' hgoes) hnot
      · cases hserve
  | finish o =>
    cases o with
    | value | runtimeException => trivial
    | error x =>
      have hfinish : k.finish (.error x) = some k' := h
      unfold Call.finish at hfinish
      split at hfinish
      · rename_i hr
        rw [← Option.some.inj hfinish] at hmet
        exact absurd (hmet _ .refl) (hk.not_met_error hr)
      · cases hfinish

end

end QuickJSBridge.Rendezvous
