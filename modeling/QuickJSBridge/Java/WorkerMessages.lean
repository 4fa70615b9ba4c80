import Mathlib.Data.List.Basic
import QuickJSBridge.Lib.Machine

/-!
# Messages to a worker

The constructor of `Worker` leaves the evaluation of the worker's script to a thread of its own.
`worker.postMessage` posts an event to the worker's queue that looks `onmessage` up when it is served; a message
that finds no function there is gone.

* `step` — the parent thread, the thread that starts the script, and the worker's owner thread on its queue;
* `NoLoss` — the messages posted are those delivered, in order, and then those still on the way;
* `Installed` — a message looks `onmessage` up when it is a function;
* `noLoss_iff_installed` — a run of a worker that is not terminated keeps the first iff its steps have the second;
* `noLoss_of_behindScript` — it does if the messages are posted behind a script that installs a function.
-/

namespace QuickJSBridge.WorkerMessages

/-! ## The machine -/

/-- An event in the worker's queue. -/
inductive Event where
  -- `executeVoidScript` of the thread that the constructor started
  | evaluate
  -- the runnable of `postMessage`
  | message (m : String)
  -- a timer, or another native call
  | other
  deriving DecidableEq

/-- What the worker's owner thread is in the middle of. -/
inductive Owner where
  | idle
  -- the worker's script is evaluated
  | evaluating
  -- other JS code of the worker
  | script
  -- the runnable of `postMessage`: before `getObject("onmessage")`, and with the function at hand
  | looking (m : String)
  | calling (m : String)
  deriving DecidableEq

/-- The global property `onmessage` of the worker's context. -/
inductive OnMessage where
  | undefined
  | function
  -- the cast to `JSFunction` fails, or `getObject` answers null
  | other
  deriving DecidableEq

structure State where
  -- the thread that starts the script has posted it
  started : Bool
  queue : List Event
  owner : Owner
  onmessage : OnMessage
  -- the arguments of `postMessage`, and those the function was called with
  posted : List String
  delivered : List String

def init : State where
  started := false
  queue := []
  owner := .idle
  onmessage := .undefined
  posted := []
  delivered := []

inductive Act where
  -- the parent's script calls `worker.postMessage`
  | postMessage (m : String)
  -- `getScript` has returned
  | start
  -- any thread posts another event
  | post
  -- the owner thread takes the first event
  | serve
  | look
  | call
  -- JS code of the worker assigns `onmessage`
  | assign (v : OnMessage)
  -- JS code of the worker returns, or throws
  | finish
  deriving DecidableEq

def Event.message? : Event → Option String
  | .message m => some m
  | _ => none

def Owner.message? : Owner → Option String
  | .looking m | .calling m => some m
  | _ => none

/-- JS code runs. -/
def Owner.inJS : Owner → Bool
  | .evaluating | .script => true
  | _ => false

def step (s : State) : Act → Option State
  | .postMessage m => some { s with queue := s.queue ++ [.message m], posted := s.posted ++ [m] }
  | .start => if s.started then none else some { s with started := true, queue := s.queue ++ [.evaluate] }
  | .post => some { s with queue := s.queue ++ [.other] }
  | .serve =>
    match s.owner, s.queue with
    | .idle, e :: rest =>
      some { s with
        queue := rest
        owner := match e with
          | .evaluate => .evaluating
          | .message m => .looking m
          | .other => .script }
    | _, _ => none
  | .look =>
    match s.owner with
    | .looking m => some { s with owner := if s.onmessage = .function then .calling m else .idle }
    | _ => none
  | .call =>
    match s.owner with
    | .calling m => some { s with owner := .script, delivered := s.delivered ++ [m] }
    | _ => none
  | .assign v => if s.owner.inJS then some { s with onmessage := v } else none
  | .finish => if s.owner.inJS then some { s with owner := .idle } else none

/-! ## The property and the guard -/

/-- The messages on their way to the function. -/
def State.pending (s : State) : List String := s.owner.message?.toList ++ s.queue.filterMap Event.message?

/-- Each message that was posted is delivered once, in the order of posting, or still pending. -/
def NoLoss (s : State) : Prop := s.posted = s.delivered ++ s.pending

def Installed (s : State) : Act → Prop
  | .look => s.onmessage = .function
  | _ => True

instance (s : State) : (a : Act) → Decidable (Installed s a)
  | .look => inferInstanceAs (Decidable (_ = _))
  | .postMessage _ | .start | .post | .serve | .call | .assign _ | .finish => inferInstanceAs (Decidable True)

/-! ## The step lemmas -/

theorem message?_of_inJS {o : Owner} (h : o.inJS = true) : o.message? = none := by
  cases o <;> first | rfl | cases h

theorem noLoss_postMessage {s s' : State} {m : String} (hi : NoLoss s) (h : step s (.postMessage m) = some s') :
    NoLoss s' := by
  rw [← Option.some.inj h]
  show s.posted ++ [m] = s.delivered ++ (s.owner.message?.toList ++ (s.queue ++ [Event.message m]).filterMap _)
  rw [List.filterMap_append, hi, State.pending]
  simp only [List.append_assoc]
  rfl

/-- An event that is no message. -/
theorem noLoss_post {s s' : State} {e : Event} (hi : NoLoss s) (he : e.message? = none)
    (hqueue : s'.queue = s.queue ++ [e])
    (hsame : s'.owner = s.owner ∧ s'.posted = s.posted ∧ s'.delivered = s.delivered) : NoLoss s' := by
  obtain ⟨howner, hposted, hdelivered⟩ := hsame
  unfold NoLoss State.pending
  rw [hposted, hdelivered, howner, hqueue, List.filterMap_append, List.filterMap_cons_none he, List.filterMap_nil,
    List.append_nil]
  exact hi

/-- The message goes from the queue to the owner thread. -/
theorem noLoss_serve {s s' : State} (hi : NoLoss s) (h : step s .serve = some s') : NoLoss s' := by
  simp only [step] at h
  split at h
  · rename_i e rest howner hqueue
    rw [← Option.some.inj h]
    unfold NoLoss State.pending at hi ⊢
    rw [howner, hqueue] at hi
    cases e with
    | evaluate => exact hi
    | message m => exact hi
    | other => exact hi
  · cases h

/-- A message that is looked up is lost unless `onmessage` is a function. -/
theorem noLoss_look {s s' : State} (hi : NoLoss s) (h : step s .look = some s') :
    NoLoss s' ↔ Installed s .look := by
  simp only [step] at h
  split at h
  · rename_i m howner
    rw [← Option.some.inj h]
    unfold NoLoss State.pending at hi ⊢
    rw [howner] at hi
    by_cases hv : s.onmessage = .function
    · rw [if_pos hv]
      exact ⟨fun _ => hv, fun _ => hi⟩
    · rw [if_neg hv]
      constructor
      · intro hlost
        have hlength := congrArg List.length (hi.symm.trans hlost)
        simp [Owner.message?] at hlength
      · exact fun hg => absurd hg hv
  · cases h

theorem noLoss_call {s s' : State} (hi : NoLoss s) (h : step s .call = some s') : NoLoss s' := by
  simp only [step] at h
  split at h
  · rename_i m howner
    rw [← Option.some.inj h]
    unfold NoLoss State.pending at hi ⊢
    rw [howner] at hi
    show s.posted = (s.delivered ++ [m]) ++ _
    rw [hi, List.append_assoc]
    rfl
  · cases h

theorem noLoss_finish {s s' : State} (hi : NoLoss s) (h : step s .finish = some s') : NoLoss s' := by
  simp only [step] at h
  split at h
  · rename_i hjs
    rw [← Option.some.inj h]
    unfold NoLoss State.pending at hi ⊢
    rw [message?_of_inJS hjs] at hi
    exact hi
  · cases h

theorem noLoss_step {s s' : State} {a : Act} (hi : NoLoss s) (h : step s a = some s') :
    NoLoss s' ↔ Installed s a := by
  cases a with
  | postMessage m => exact ⟨fun _ => trivial, fun _ => noLoss_postMessage hi h⟩
  | start =>
    refine ⟨fun _ => trivial, fun _ => ?_⟩
    simp only [step] at h
    split at h
    · cases h
    · rw [← Option.some.inj h]
      exact noLoss_post (e := .evaluate) hi rfl rfl ⟨rfl, rfl, rfl⟩
  | post =>
    refine ⟨fun _ => trivial, fun _ => ?_⟩
    rw [← Option.some.inj h]
    exact noLoss_post (e := .other) hi rfl rfl ⟨rfl, rfl, rfl⟩
  | serve => exact ⟨fun _ => trivial, fun _ => noLoss_serve hi h⟩
  | look => exact noLoss_look hi h
  | call => exact ⟨fun _ => trivial, fun _ => noLoss_call hi h⟩
  | assign v =>
    refine ⟨fun _ => trivial, fun _ => ?_⟩
    simp only [step] at h
    split at h
    · rw [← Option.some.inj h]
      exact hi
    · cases h
  | finish => exact ⟨fun _ => trivial, fun _ => noLoss_finish hi h⟩

/-! ## Runs -/

/-- **Messages.** In every state of a run all messages are delivered in order or pending iff each message that was
looked up found a function. -/
theorem noLoss_iff_installed {as : List Act} {s : State} (h : Machine.Run step init as s) :
    Machine.GuardedRun step Installed init as s ↔
      ∀ bs t, bs <+: as → Machine.Run step init bs t → NoLoss t :=
  Machine.guardedRun_iff_forall_prefix (fun _ _ _ hi hst => noLoss_step hi hst) rfl h

/-- The script installs a function, and two messages are posted, one of them before it returns. -/
def postBehindScript : List Act :=
  [.start, .serve, .postMessage "a", .assign .function, .finish, .postMessage "b", .serve, .look, .call, .finish,
    .serve, .look, .call, .finish]

theorem noLoss_iff_installed_behind :
    ∃ s, Machine.Run step init postBehindScript s ∧ s.delivered = ["a", "b"] ∧
      ∀ bs t, bs <+: postBehindScript → Machine.Run step init bs t → NoLoss t := by
  obtain ⟨s, hrun, hdelivered⟩ := Machine.exists_guardedRun_of_execGuarded step Installed init postBehindScript
    (fun s => decide (s.delivered = ["a", "b"])) (by decide)
  exact ⟨s, hrun.run, of_decide_eq_true hdelivered, (noLoss_iff_installed hrun.run).mp hrun⟩

/-- A message is posted before the script is. -/
theorem not_noLoss_early : ¬ ∀ as s, Machine.Run step init as s → NoLoss s := by
  intro hall
  obtain ⟨s, hrun, hlost⟩ := Machine.exists_run_of_exec step init
    [.postMessage "a", .start, .serve, .look, .serve, .assign .function, .finish]
    (fun s => decide (s.posted ≠ s.delivered ++ s.pending)) (by decide)
  exact of_decide_eq_true hlost (hall _ s hrun)

/-! ## Messages behind the script -/

/-- Messages are posted when the script has been; the script installs a function before it returns, and nothing
else is assigned. -/
def BehindScript (s : State) : Act → Prop
  | .postMessage _ => s.started = true
  | .assign v => v = .function
  | .finish => s.owner = .evaluating → s.onmessage = .function
  | _ => True

/-- No message is in front of the script. -/
def Behind : List Event → Prop
  | [] | .evaluate :: _ => True
  | .message _ :: _ => False
  | .other :: rest => Behind rest

theorem Behind.concat {queue : List Event} (h : Behind queue) {e : Event}
    (he : e.message? = none ∨ .evaluate ∈ queue) : Behind (queue ++ [e]) := by
  induction queue with
  | nil =>
    cases e with
    | message m =>
      rcases he with he | he
      · cases he
      · exact absurd he List.not_mem_nil
    | evaluate => trivial
    | other => trivial
  | cons e' queue ih =>
    cases e' with
    | evaluate => trivial
    | message m => exact h.elim
    | other =>
      apply ih h
      exact he.imp_right fun hmem => (List.mem_cons.mp hmem).resolve_left Event.noConfusion

/-- The function is installed, or about to be, or the script is in front of all messages. -/
def Ahead (s : State) : Prop :=
  s.onmessage = .function ∨ s.owner = .evaluating ∨
    s.owner.message? = none ∧ Behind s.queue ∧ (s.started = true → .evaluate ∈ s.queue)

/-- A message that the owner thread has taken finds the function. -/
theorem Ahead.installed {s : State} {m : String} (hi : Ahead s) (howner : s.owner.message? = some m) :
    s.onmessage = .function := by
  rcases hi with hi | hi | ⟨hnone, _⟩
  · exact hi
  · rw [hi] at howner
    cases howner
  · rw [hnone] at howner
    cases howner

theorem Ahead.concat {s s' : State} {e : Event} (hi : Ahead s) (hqueue : s'.queue = s.queue ++ [e])
    (hsame : s'.onmessage = s.onmessage ∧ s'.owner = s.owner) (he : e.message? = none ∨ s.started = true)
    (hstarted : s'.started = true → s.started = true ∨ e = .evaluate) : Ahead s' := by
  unfold Ahead
  rw [hsame.1, hsame.2, hqueue]
  refine hi.imp_right fun hi => hi.imp_right fun ⟨howner, hbehind, hfront⟩ => ?_
  refine ⟨howner, hbehind.concat (he.imp_right hfront), fun hs => ?_⟩
  rcases hstarted hs with hs | rfl
  · exact List.mem_append_left _ (hfront hs)
  · exact List.mem_append_right _ List.mem_cons_self

theorem ahead_serve {s s' : State} (hi : Ahead s) (h : step s .serve = some s') : Ahead s' := by
  simp only [step] at h
  split at h
  · rename_i e rest howner hqueue
    rw [← Option.some.inj h]
    rcases hi with hi | hi | ⟨_, hbehind, hfront⟩
    · exact Or.inl hi
    · rw [howner] at hi
      cases hi
    · rw [hqueue] at hbehind hfront
      cases e with
      | evaluate => exact Or.inr (Or.inl rfl)
      | message m => exact hbehind.elim
      | other =>
        refine Or.inr (Or.inr ⟨rfl, hbehind, fun hs => ?_⟩)
        exact (List.mem_cons.mp (hfront hs)).resolve_left Event.noConfusion
  · cases h

theorem ahead_step {s s' : State} {a : Act} (hi : Ahead s) (hg : BehindScript s a) (h : step s a = some s') :
    Ahead s' := by
  cases a with
  | postMessage m => exact Option.some.inj h ▸ hi.concat rfl ⟨rfl, rfl⟩ (Or.inr hg) Or.inl
  | start =>
    simp only [step] at h
    split at h
    · cases h
    · exact Option.some.inj h ▸ hi.concat rfl ⟨rfl, rfl⟩ (Or.inl rfl) fun _ => Or.inr rfl
  | post => exact Option.some.inj h ▸ hi.concat rfl ⟨rfl, rfl⟩ (Or.inl rfl) Or.inl
  | serve => exact ahead_serve hi h
  | look =>
    simp only [step] at h
    split at h
    · rename_i m howner
      rw [← Option.some.inj h]
      exact Or.inl (hi.installed (by rw [howner]; rfl))
    · cases h
  | call =>
    simp only [step] at h
    split at h
    · rename_i m howner
      rw [← Option.some.inj h]
      exact Or.inl (hi.installed (by rw [howner]; rfl))
    · cases h
  | assign v =>
    simp only [step] at h
    split at h
    · rw [← Option.some.inj h]
      exact Or.inl hg
    · cases h
  | finish =>
    simp only [step] at h
    split at h
    · rw [← Option.some.inj h]
      rcases hi with hi | hi | ⟨_, hrest⟩
      · exact Or.inl hi
      · exact Or.inl (hg hi)
      · exact Or.inr (Or.inr ⟨rfl, hrest⟩)
    · cases h

theorem installed_of_ahead {s s' : State} {a : Act} (hi : Ahead s) (h : step s a = some s') : Installed s a := by
  cases a with
  | look =>
    simp only [step] at h
    split at h
    · rename_i m howner
      exact hi.installed (by rw [howner]; rfl)
    · cases h
  | postMessage | start | post | serve | call | assign | finish => trivial

/-- Along such a run no message is lost. -/
theorem noLoss_of_behindScript {as : List Act} {s : State}
    (h : Machine.GuardedRun step BehindScript init as s) : NoLoss s := by
  have hinit : NoLoss init ∧ Ahead init :=
    ⟨rfl, Or.inr (Or.inr ⟨rfl, trivial, fun hs => nomatch hs⟩)⟩
  refine (h.invariant (I := fun s => NoLoss s ∧ Ahead s) (fun s a s' hi hg hst => ?_) hinit).1
  exact ⟨(noLoss_step hi.1 hst).mpr (installed_of_ahead hi.2 hst), ahead_step hi.2 hg hst⟩

end QuickJSBridge.WorkerMessages
