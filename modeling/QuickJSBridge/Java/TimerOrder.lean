import QuickJSBridge.Java.Parameters
import QuickJSBridge.Java.Timers

/-!
# The order of timers

Each call of `setTimeout` has a thread of its own, which sleeps and then posts. Nothing orders the threads
among each other: what orders the functions is the handler's queue.

* `delayMillis` — the delay of a call: a double that Java truncates to a `long`;
* `step` — the machine of `Timers` with a clock, the calls with their delays, and the order of the posts;
* `line` — the timers of the functions invoked, of the event on the owner thread and of the queue, in this order;
* `fires_inOrder_of_posts` — each call of an open context has one post and one invocation, and the functions are
  invoked in the order of the posts.
-/

namespace QuickJSBridge.TimerOrder

open Timers (Timer Frame Event Entry)

variable {L : Layout}

/-! ## Delays -/

/-- `(long) d` -/
def longOfDouble (bits : BitVec 64) : Int :=
  if isNaNBits bits then 0
  else
    match integerPart bits with
    | some n => max (-2 ^ 63) (min n (2 ^ 63 - 1))
    | none => if bits.toNat / 2 ^ 63 = 1 then -2 ^ 63 else 2 ^ 63 - 1

/-- `(long) args.getDouble(1)`, where the element is `v`, which is undefined if there is none. -/
def delayMillis (E : Engine L) (slot : Slot) (v : JSVal L) : Int :=
  match read E slot .double v .arrayGet with
  | .returned (.double bits) => longOfDouble bits
  -- `getDouble` has no other outcome
  | _ => 0

theorem delayMillis_eq (E : Engine L) (slot : Slot) (v : JSVal L) :
    delayMillis E slot v = longOfDouble (if v = .undefined then 0 else (E.toFloat64 none v).1) := by
  unfold delayMillis
  rw [Parameters.read_double]

/-- The delays that `Thread.sleep` does not accept. -/
theorem longOfDouble_neg_iff (bits : BitVec 64) :
    longOfDouble bits < 0 ↔
      isNaNBits bits = false ∧ bits.toNat / 2 ^ 63 = 1 ∧ (exponent bits = 2047 ∨ 0 < magnitude bits) := by
  unfold longOfDouble integerPart
  cases isNaNBits bits with
  | true => simp
  | false =>
    by_cases hexp : exponent bits = 2047
    · by_cases hsign : bits.toNat / 2 ^ 63 = 1
      · simp only [hexp, hsign, if_false, if_true, Bool.false_eq_true, true_and, true_or, iff_true]
        decide
      · simp only [hexp, hsign, if_false, if_true, Bool.false_eq_true, true_and, false_and, iff_false]
        decide
    · by_cases hsign : bits.toNat / 2 ^ 63 = 1
      · simp only [hexp, hsign, if_false, if_true, Bool.false_eq_true, true_and, false_or]
        omega
      · simp only [hexp, hsign, if_false, Bool.false_eq_true, true_and, false_and, iff_false]
        omega

example : delayMillis (sampleEngine .struct64) none .undefined = 0 := by decide +kernel

example : delayMillis (sampleEngine .struct64) none (.float64 canonicalNaN) = 0 := by decide +kernel

-- 1.5 and -1.5
example : delayMillis (sampleEngine .struct64) none (.float64 0x3ff8000000000000) = 1 := by decide +kernel

example : delayMillis (sampleEngine .struct64) none (.float64 0xbff8000000000000) = -1 := by decide +kernel

/-! ## The machine -/

structure Call where
  timer : Timer
  delay : Int
  -- when the thread started
  start : Nat
  deriving DecidableEq

structure State where
  base : Timers.State
  -- in milliseconds
  now : Nat
  -- in the order of the calls
  calls : List Call
  -- in the order of `handler.post`
  posted : List Timer

def init : State where
  base := Timers.init
  now := 0
  calls := []
  posted := []

inductive Act (L : Layout) where
  | tick
  -- JS code calls `setTimeout` of context `c` with the second argument `v`
  | setTimeout (c : Nat) (E : Engine L) (slot : Slot) (v : JSVal L)
  -- `Thread.sleep` returns
  | wake (t : Timer)
  -- `Thread.sleep` throws IllegalArgumentException, and the thread ends
  | fail (t : Timer)
  | enqueue (t : Timer)
  -- the owner thread, and posts that are not of timers
  | other (a : Timers.Act)

/-- The timer whose runnable the frame is, before the function is invoked. -/
def timer? : Frame → Option Timer
  | .testing t | .calling t | .executing t => some t
  | _ => none

def eventTimer? : Event → Option Timer
  | .timer t => some t
  | _ => none

def invokedTimer? : Entry → Option Timer
  | .invoked t => some t
  | _ => none

/-- An action that is not one of a timer's thread or of its call. Nothing throws between the test of the runnable
and the call of the function. -/
def isOther (s : Timers.State) : Timers.Act → Bool
  | .wake _ | .enqueue _ | .setTimeout _ => false
  | .finish => (s.stack.head?.bind timer?).isNone
  | _ => true

namespace State

/-- A call of the timer has slept for its delay. -/
def elapsed (s : State) (t : Timer) : Bool :=
  s.calls.any fun k => k.timer = t && (0 ≤ k.delay && k.start + k.delay ≤ s.now)

def negative (s : State) (t : Timer) : Bool := s.calls.any fun k => k.timer = t && k.delay < 0

end State

def step (s : State) : Act L → Option State
  | .tick => some { s with now := s.now + 1 }
  | .setTimeout c E slot v =>
    (Timers.step s.base (.setTimeout c)).map fun b =>
      -- a closed context starts no thread
      if s.base.contextReleased c then { s with base := b }
      else { s with base := b, calls := s.calls ++ [⟨⟨s.base.count, c⟩, delayMillis E slot v, s.now⟩] }
  | .wake t =>
    if s.elapsed t then (Timers.step s.base (.wake t)).map fun b => { s with base := b } else none
  | .fail t =>
    if t ∈ s.base.sleeping ∧ s.negative t then
      some { s with base := { s.base with sleeping := s.base.sleeping.erase t } }
    else none
  | .enqueue t => (Timers.step s.base (.enqueue t)).map fun b => { s with base := b, posted := s.posted ++ [t] }
  | .other a => if isOther s.base a then (Timers.step s.base a).map fun b => { s with base := b } else none

/-! ## The property -/

def isOpen (s : Timers.State) (t : Timer) : Bool := !s.contextReleased t.context

/-- The functions invoked, by their timers. -/
def invoked (s : Timers.State) : List Timer := s.log.filterMap invokedTimer?

/-- The timers whose event was posted, from the first that was invoked to the last in the queue. -/
def line (s : Timers.State) : List Timer :=
  invoked s ++ s.stack.filterMap timer? ++ s.queue.filterMap eventTimer?

/-- The timer is in one place: in its thread, which has not posted, or in the line, where it was posted. -/
def PostedOnce (s : State) (t : Timer) : Prop :=
  s.base.sleeping.count t + s.base.admitted.count t + s.posted.count t = 1 ∧
    (line s.base).count t = s.posted.count t

/-- Where `b` is in the list, `a` is before it. -/
def Precedes (l : List Timer) (a b : Timer) : Prop := ∀ l₁ l₂, l = l₁ ++ b :: l₂ → a ∈ l₁

/-- Every call in an open context has one post, at most. -/
def Once (s : State) : Prop := ∀ k ∈ s.calls, isOpen s.base k.timer = true → PostedOnce s k.timer

/-- A function is invoked after those of the calls before it that have no longer delay. -/
def InOrder (s : State) : Prop :=
  ∀ (i j : Nat) (k k' : Call), s.calls[i]? = some k → s.calls[j]? = some k' → i < j → k.delay ≤ k'.delay →
    isOpen s.base k.timer = true → isOpen s.base k'.timer = true → Precedes (invoked s.base) k.timer k'.timer

/-- What holds for the calls in open contexts whose delay is not negative. -/
structure Fires (L : Layout) (s : State) : Prop where
  once : ∀ k ∈ s.calls, isOpen s.base k.timer = true → 0 ≤ k.delay → PostedOnce s k.timer
  -- a thread that has not posted can still do so
  posts : ∀ k ∈ s.calls, isOpen s.base k.timer = true → 0 ≤ k.delay → s.posted.count k.timer = 0 →
    ∃ (as : List (Act L)) (s' : State), Machine.Run step s as s' ∧ s'.posted = s.posted ++ [k.timer]
  -- an event whose turn it is invokes the function
  invokes : ∀ t rest, s.base.stack = [] → s.base.queue = .timer t :: rest → isOpen s.base t = true →
    ∃ s', Machine.Run step s [(.other .serve : Act L), .other .test, .other .check, .other .invoke] s' ∧
      invoked s'.base = invoked s.base ++ [t]
  order : ∀ t t', isOpen s.base t = true → isOpen s.base t' = true →
    Precedes s.posted t t' → Precedes (invoked s.base) t t'

/-! ## What the owner thread does to the line -/

/-- The runtime is released before its thread is interrupted. -/
def Flagged (s : Timers.State) : Prop := s.interrupted = true ∨ .interrupting ∈ s.stack

/-- A step of the owner thread leaves the timers of open contexts in the places that they have. -/
structure Keeps (s s' : Timers.State) : Prop where
  sleeping : s'.sleeping = s.sleeping
  admitted : s'.admitted = s.admitted
  count : s'.count = s.count
  flag : Flagged s' → s'.released = true
  shut : ∀ c, s.contextReleased c = true → s'.contextReleased c = true
  inLine : (line s').filter (isOpen s') = (line s).filter (isOpen s')

theorem line_eq (s : Timers.State) :
    line s = s.log.filterMap invokedTimer? ++ s.stack.filterMap timer? ++ s.queue.filterMap eventTimer? := rfl

theorem contextReleased_of_released {s : Timers.State} (h : s.released = true) (c : Nat) :
    s.contextReleased c = true := by
  unfold Timers.State.contextReleased
  rw [h]
  rfl

theorem released_of_isReleased {s : Timers.State} (hflag : Flagged s → s.released = true)
    (h : s.isReleased = true) : s.released = true := by
  unfold Timers.State.isReleased at h
  rcases Bool.or_eq_true_iff.mp h with h | h
  · exact h
  · exact hflag (Or.inl h)

/-- The step moves frames or events that are of no timer. -/
theorem Keeps.of_line {s s' : Timers.State} (hflag : Flagged s' → s'.released = true)
    (hsame : s'.sleeping = s.sleeping ∧ s'.admitted = s.admitted ∧ s'.count = s.count)
    (hshut : ∀ c, s.contextReleased c = true → s'.contextReleased c = true) (hline : line s' = line s) : Keeps s s' :=
  ⟨hsame.1, hsame.2.1, hsame.2.2, hflag, hshut, by rw [hline]⟩

/-- The step drops a timer, of a context that is closed. -/
theorem Keeps.of_drop {s s' : Timers.State} {t : Timer} (l₁ l₂ : List Timer)
    (hflag : Flagged s' → s'.released = true)
    (hsame : s'.sleeping = s.sleeping ∧ s'.admitted = s.admitted ∧ s'.count = s.count)
    (hshut : ∀ c, s.contextReleased c = true → s'.contextReleased c = true)
    (hclosed : s'.contextReleased t.context = true) (hline : line s = l₁ ++ t :: l₂) (hline' : line s' = l₁ ++ l₂) :
    Keeps s s' := by
  refine ⟨hsame.1, hsame.2.1, hsame.2.2, hflag, hshut, ?_⟩
  have hopen : isOpen s' t = false := by
    unfold isOpen
    rw [hclosed]
    rfl
  rw [hline, hline', List.filter_append, List.filter_append, List.filter_cons, hopen, if_neg Bool.false_ne_true]

/-- A frame of no timer is put on the stack. -/
theorem keeps_push {s : Timers.State} {f : Frame} (hflag : Flagged s → s.released = true) (hf : timer? f = none)
    (hne : f ≠ .interrupting) : Keeps s (s.push f) := by
  refine .of_line ?_ ⟨rfl, rfl, rfl⟩ (fun _ h => h) ?_
  · rintro (h | h)
    · exact hflag (Or.inl h)
    · rcases List.mem_cons.mp h with h | h
      · exact absurd h.symm hne
      · exact hflag (Or.inr h)
  · rw [line_eq, line_eq]
    unfold Timers.State.push
    rw [List.filterMap_cons_none hf]

theorem keeps_run {s : Timers.State} (hflag : Flagged s → s.released = true) (r : Timers.Runnable) :
    Keeps s (s.run r) := by
  cases r with
  | other => exact keeps_push hflag rfl Frame.noConfusion
  | closeContext c => apply keeps_push hflag <;> split <;> first | rfl | exact Frame.noConfusion
  | closeRuntime => apply keeps_push hflag <;> split <;> first | rfl | exact Frame.noConfusion

theorem keeps_refl {s : Timers.State} (hflag : Flagged s → s.released = true) : Keeps s s :=
  .of_line hflag ⟨rfl, rfl, rfl⟩ (fun _ h => h) rfl

/-- The first event is taken from the queue; it is of no timer, or of one whose context is closed. -/
theorem keeps_take {s : Timers.State} {e : Event} {rest : List Event} (hflag : Flagged s → s.released = true)
    (hqueue : s.queue = e :: rest) (he : ∀ t, eventTimer? e = some t → s.contextReleased t.context = true) :
    Keeps s { s with queue := rest } := by
  cases htimer : eventTimer? e with
  | none =>
    refine .of_line hflag ⟨rfl, rfl, rfl⟩ (fun _ h => h) ?_
    rw [line_eq, line_eq, hqueue, List.filterMap_cons_none htimer]
  | some t =>
    refine .of_drop (s.log.filterMap invokedTimer? ++ s.stack.filterMap timer?) (rest.filterMap eventTimer?) hflag ⟨rfl, rfl, rfl⟩ (fun _ h => h) (he t htimer) ?_ rfl
    rw [line_eq, hqueue, List.filterMap_cons_some htimer]

/-- A filter for fewer timers. -/
theorem filter_of_filter {p q : Timer → Bool} {l l' : List Timer} (hpq : ∀ t, q t = true → p t = true)
    (h : l.filter p = l'.filter p) : l.filter q = l'.filter q := by
  have hboth : ∀ m : List Timer, (m.filter p).filter q = m.filter q := by
    intro m
    rw [List.filter_filter]
    apply List.filter_congr
    intro t _
    cases hq : q t with
    | true => rw [hpq t hq]; rfl
    | false => rfl
  rw [← hboth l, h, hboth]

theorem isOpen_of_shut {s s' : Timers.State} (h : ∀ c, s.contextReleased c = true → s'.contextReleased c = true)
    {t : Timer} (ht : isOpen s' t = true) : isOpen s t = true := by
  unfold isOpen at ht ⊢
  cases hc : s.contextReleased t.context with
  | true =>
    rw [h _ hc] at ht
    cases ht
  | false => rfl

theorem Keeps.trans {s s' s'' : Timers.State} (h : Keeps s s') (h' : Keeps s' s'') : Keeps s s'' := by
  refine ⟨h'.sleeping.trans h.sleeping, h'.admitted.trans h.admitted, h'.count.trans h.count, h'.flag,
    fun c hc => h'.shut c (h.shut c hc), ?_⟩
  rw [h'.inLine]
  exact filter_of_filter (fun _ => isOpen_of_shut h'.shut) h.inLine

/-- The frame of a timer is left, its context being closed, or gives way to the next frame of the timer. -/
theorem keeps_leave {s : Timers.State} {f : Frame} {t : Timer} {rest : List Frame}
    (hflag : Flagged s → s.released = true) (hstack : s.stack = f :: rest) (hf : timer? f = some t)
    (hclosed : s.contextReleased t.context = true) : Keeps s { s with stack := rest } := by
  refine .of_drop (s.log.filterMap invokedTimer?) (rest.filterMap timer? ++ s.queue.filterMap eventTimer?) ?_ ⟨rfl, rfl, rfl⟩ (fun _ h => h) hclosed ?_ ?_
  · rintro (h | h)
    · exact hflag (Or.inl h)
    · exact hflag (Or.inr (by rw [hstack]; exact List.mem_cons_of_mem _ h))
  · rw [line_eq, hstack, List.filterMap_cons_some hf, List.append_assoc, List.cons_append]
  · rw [line_eq, List.append_assoc]

/-- The innermost frame is replaced by others that are of the same timers, or of none. -/
theorem keeps_replace {s s' : Timers.State} {f : Frame} {rest : List Frame} (top : List Frame)
    (hflag : Flagged s → s.released = true) (hstack : s.stack = f :: rest) (hs' : s'.stack = top ++ rest)
    (hsame : s'.sleeping = s.sleeping ∧ s'.admitted = s.admitted ∧ s'.count = s.count) (hqueue : s'.queue = s.queue)
    (hinterrupt : s'.interrupted = true ∨ .interrupting ∈ top → s'.released = true)
    (hreleased : s.released = true → s'.released = true)
    (hshut : ∀ c, s.contextReleased c = true → s'.contextReleased c = true)
    (hline : s'.log.filterMap invokedTimer? ++ top.filterMap timer? =
      s.log.filterMap invokedTimer? ++ [f].filterMap timer?) : Keeps s s' := by
  refine .of_line ?_ hsame hshut ?_
  · rintro (h | h)
    · exact hinterrupt (Or.inl h)
    · rw [hs'] at h
      rcases List.mem_append.mp h with h | h
      · exact hinterrupt (Or.inr h)
      · exact hreleased (hflag (Or.inr (by rw [hstack]; exact List.mem_cons_of_mem _ h)))
  · rw [line_eq, line_eq, hs', hstack, hqueue, List.filterMap_append, ← List.append_assoc, hline,
      List.append_assoc (s.log.filterMap invokedTimer?), ← List.filterMap_append, List.singleton_append]

theorem keeps_post {s : Timers.State} {e : Event} (hflag : Flagged s → s.released = true) (he : eventTimer? e = none) :
    Keeps s { s with queue := s.queue ++ [e] } := by
  refine .of_line hflag ⟨rfl, rfl, rfl⟩ (fun _ h => h) ?_
  rw [line_eq, line_eq, List.filterMap_append, List.filterMap_cons_none he, List.filterMap_nil, List.append_nil]

theorem keeps_serve {s s' : Timers.State} (hflag : Flagged s → s.released = true)
    (h : Timers.step s .serve = some s') : Keeps s s' := by
  simp only [Timers.step] at h
  split at h
  · rename_i e rest hstack hqueue
    cases e with
    | timer t =>
      rw [← Option.some.inj h]
      split
      · rename_i hrel
        exact keeps_take hflag hqueue fun u _ => contextReleased_of_released hrel u.context
      · -- the event goes from the front of the queue to the stack
        refine .of_line ?_ ⟨rfl, rfl, rfl⟩ (fun _ h => h) ?_
        · rintro (h | h)
          · exact hflag (Or.inl h)
          · show s.released = true
            unfold Timers.State.push at h
            rw [hstack] at h
            cases List.mem_singleton.mp h
        · rw [line_eq, line_eq, hqueue]
          unfold Timers.State.push
          rw [hstack]
          simp [timer?, eventTimer?]
    | runnable r =>
      rw [← Option.some.inj h]
      have htake : Keeps s { s with queue := rest } := keeps_take hflag hqueue fun u hu => (by cases hu)
      split
      · exact htake
      · exact htake.trans (keeps_run htake.flag r)
    | native =>
      rw [← Option.some.inj h]
      have htake : Keeps s { s with queue := rest } := keeps_take hflag hqueue fun u hu => (by cases hu)
      exact htake.trans (keeps_push htake.flag rfl Frame.noConfusion)
  · cases h

/-- The two tests of the runnable. -/
theorem keeps_tested {s s' : Timers.State} {f g : Frame} {t : Timer} {rest : List Frame}
    (hflag : Flagged s → s.released = true) (hstack : s.stack = f :: rest) (hf : timer? f = some t)
    (hg : timer? g = some t)
    (h : { s with stack := if s.contextReleased t.context then rest else g :: rest } = s') : Keeps s s' := by
  rw [← h]
  split
  · rename_i hclosed
    exact keeps_leave hflag hstack hf hclosed
  · have hne : .interrupting ∉ [g] := by
      intro hmem
      rw [← List.mem_singleton.mp hmem] at hg
      cases hg
    refine keeps_replace [g] hflag hstack rfl ⟨rfl, rfl, rfl⟩ rfl ?_ id (fun _ h => h) ?_
    · rintro (h | h)
      · exact hflag (Or.inl h)
      · exact absurd h hne
    · rw [List.filterMap_cons_some hf, List.filterMap_cons_some hg]

theorem keeps_invoke {s s' : Timers.State} (hflag : Flagged s → s.released = true)
    (h : Timers.step s .invoke = some s') : Keeps s s' := by
  simp only [Timers.step] at h
  split at h
  · rename_i t rest hstack
    rw [← Option.some.inj h]
    split
    · rename_i hrel
      exact keeps_leave hflag hstack rfl (contextReleased_of_released (released_of_isReleased hflag hrel) _)
    · -- the timer goes from the stack to the end of the log
      refine keeps_replace [.script, .event] hflag hstack rfl ⟨rfl, rfl, rfl⟩ rfl ?_ id (fun _ h => h) ?_
      · rintro (h | h)
        · exact hflag (Or.inl h)
        · simp at h
      · simp [timer?, invokedTimer?]
  · cases h

/-- A frame of no timer is left, or another comes in its place; nothing is invoked. -/
theorem keeps_closing {s s' : Timers.State} {f : Frame} {rest : List Frame} (top : List Frame) (entries : List Entry)
    (hflag : Flagged s → s.released = true) (hstack : s.stack = f :: rest) (hs' : s'.stack = top ++ rest)
    (hsame : s'.sleeping = s.sleeping ∧ s'.admitted = s.admitted ∧ s'.count = s.count) (hqueue : s'.queue = s.queue)
    (hinterrupt : s'.interrupted = true ∨ .interrupting ∈ top → s'.released = true)
    (hreleased : s.released = true → s'.released = true)
    (hshut : ∀ c, s.contextReleased c = true → s'.contextReleased c = true)
    (hlog : s'.log = s.log ++ entries) (hentries : entries.filterMap invokedTimer? = [])
    (hf : [f].filterMap timer? = []) (htop : top.filterMap timer? = []) : Keeps s s' := by
  refine keeps_replace top hflag hstack hs' hsame hqueue hinterrupt hreleased hshut ?_
  rw [hlog, List.filterMap_append, hentries, hf, htop, List.append_nil, List.append_nil]

theorem keeps_close {s s' : Timers.State} (hflag : Flagged s → s.released = true)
    (h : Timers.step s .close = some s') : Keeps s s' := by
  simp only [Timers.step] at h
  split at h
  · rename_i c rest hstack
    rw [← Option.some.inj h]
    refine keeps_closing [] [.closed c] hflag hstack rfl ⟨rfl, rfl, rfl⟩ rfl ?_ id ?_ rfl rfl rfl rfl
    · rintro (h | h)
      · exact hflag (Or.inl h)
      · cases h
    · intro d hd
      unfold Timers.State.contextReleased at hd ⊢
      dsimp only
      by_cases hdc : d = c
      · rw [hdc, Function.update_self, Bool.or_true]
      · rw [Function.update_of_ne hdc]
        exact hd
  · cases h

theorem keeps_releaseRuntime {s s' : Timers.State} (hflag : Flagged s → s.released = true)
    (h : Timers.step s .releaseRuntime = some s') : Keeps s s' := by
  simp only [Timers.step] at h
  split at h
  · rename_i rest hstack
    rw [← Option.some.inj h]
    refine keeps_closing [.releasing] (if s.isReleased then [] else [.released]) hflag hstack rfl
      ⟨rfl, rfl, rfl⟩ rfl ?_ id (fun _ h => h) ?_ ?_ rfl rfl
    · rintro (h | h)
      · exact hflag (Or.inl h)
      · cases List.mem_singleton.mp h
    · dsimp only
      split
      · exact (List.append_nil _).symm
      · rfl
    · split <;> rfl
  · cases h

theorem keeps_setReleased {s s' : Timers.State} (hflag : Flagged s → s.released = true)
    (h : Timers.step s .setReleased = some s') : Keeps s s' := by
  simp only [Timers.step] at h
  split at h
  · rename_i rest hstack
    rw [← Option.some.inj h]
    exact keeps_closing [.interrupting] [] hflag hstack rfl ⟨rfl, rfl, rfl⟩ rfl (fun _ => rfl)
      (fun _ => rfl) (fun _ _ => rfl) (List.append_nil _).symm rfl rfl rfl
  · cases h

theorem keeps_interrupt {s s' : Timers.State} (hflag : Flagged s → s.released = true)
    (h : Timers.step s .interrupt = some s') : Keeps s s' := by
  simp only [Timers.step] at h
  split at h
  · rename_i rest hstack
    have hreleased : s.released = true := hflag (Or.inr (by rw [hstack]; exact List.mem_cons_self))
    rw [← Option.some.inj h]
    exact keeps_closing [] [] hflag hstack rfl ⟨rfl, rfl, rfl⟩ rfl (fun _ => hreleased) id
      (fun _ h => h) (List.append_nil _).symm rfl rfl rfl
  · cases h

theorem keeps_finish {s s' : Timers.State} (hflag : Flagged s → s.released = true) (hother : isOther s .finish = true)
    (h : Timers.step s .finish = some s') : Keeps s s' := by
  simp only [Timers.step] at h
  split at h
  · rename_i f rest hstack
    split at h
    · rw [← Option.some.inj h]
      have hf : timer? f = none := by
        unfold isOther at hother
        rw [hstack] at hother
        exact Option.isNone_iff_eq_none.mp hother
      refine keeps_closing [] [] hflag hstack rfl ⟨rfl, rfl, rfl⟩ rfl ?_ id
        (fun _ h => h) (List.append_nil _).symm rfl ?_ rfl
      · rintro (h | h)
        · exact hflag (Or.inl h)
        · cases h
      · rw [List.filterMap_cons_none hf, List.filterMap_nil]
    · cases h
  · cases h

/-- **One step of the owner thread**, or a post that is not of a timer. -/
theorem keeps_step {s s' : Timers.State} {a : Timers.Act} (hflag : Flagged s → s.released = true)
    (hother : isOther s a = true) (h : Timers.step s a = some s') : Keeps s s' := by
  cases a with
  | wake | enqueue | setTimeout => cases hother
  | post r => exact Option.some.inj h ▸ keeps_post hflag rfl
  | postNative => exact Option.some.inj h ▸ keeps_post hflag rfl
  | serve => exact keeps_serve hflag h
  | test =>
    simp only [Timers.step] at h
    split at h
    · rename_i t rest hstack
      exact keeps_tested hflag hstack rfl rfl (Option.some.inj h)
    · cases h
  | check =>
    simp only [Timers.step] at h
    split at h
    · rename_i t rest hstack
      exact keeps_tested hflag hstack rfl rfl (Option.some.inj h)
    · cases h
  | invoke => exact keeps_invoke hflag h
  | script =>
    simp only [Timers.step] at h
    split at h
    · rw [← Option.some.inj h]
      split
      · exact keeps_refl hflag
      · exact keeps_push hflag rfl Frame.noConfusion
    · cases h
  | callback =>
    simp only [Timers.step] at h
    split at h
    · exact Option.some.inj h ▸ keeps_push hflag rfl Frame.noConfusion
    · cases h
  | postOnOwner r =>
    simp only [Timers.step] at h
    split at h
    · rw [← Option.some.inj h]
      split
      · exact keeps_refl hflag
      · exact keeps_run hflag r
    · cases h
  | close => exact keeps_close hflag h
  | releaseRuntime => exact keeps_releaseRuntime hflag h
  | setReleased => exact keeps_setReleased hflag h
  | interrupt => exact keeps_interrupt hflag h
  | finish => exact keeps_finish hflag hother h

/-! ## The invariant -/

/-- How often the timer is in its thread and in the line. -/
def places (s : Timers.State) (t : Timer) : Nat := s.sleeping.count t + s.admitted.count t + (line s).count t

theorem weight_eq (s : Timers.State) (t : Timer) : s.weight t = places s t := by
  have hqueue : (s.queue.filterMap eventTimer?).count t = s.queue.count (.timer t) := by
    rw [List.count_filterMap, List.count_eq_countP]
    apply List.countP_congr
    intro e _
    cases e <;> simp [eventTimer?]
  have hstack : (s.stack.filterMap timer?).count t = s.stack.countP (Frame.carries t) := by
    rw [List.count_filterMap]
    apply List.countP_congr
    intro f _
    cases f <;> simp [timer?, Frame.carries]
  have hlog : (s.log.filterMap invokedTimer?).count t = s.log.count (.invoked t) := by
    rw [List.count_filterMap, List.count_eq_countP]
    apply List.countP_congr
    intro e _
    cases e <;> simp [invokedTimer?]
  unfold Timers.State.weight places
  rw [line_eq, List.count_append, List.count_append, hqueue, hstack, hlog]
  omega

structure Inv (s : State) : Prop where
  base : Timers.Inv s.base
  flag : Flagged s.base → s.base.released = true
  -- each call has a timer of its own
  calls : (s.calls.map Call.timer).Nodup
  older : ∀ k ∈ s.calls, k.timer.id < s.base.count
  placed : ∀ k ∈ s.calls, isOpen s.base k.timer = true → 0 ≤ k.delay → places s.base k.timer = 1
  posted : s.posted.filter (isOpen s.base) = (line s.base).filter (isOpen s.base)

theorem inv_init : Inv init where
  base := Timers.inv_init
  flag h := by
    rcases h with h | h <;> cases h
  calls := List.nodup_nil
  older _ hk := absurd hk List.not_mem_nil
  placed _ hk := absurd hk List.not_mem_nil
  posted := rfl

theorem count_of_filter_eq {p : Timer → Bool} {l l' : List Timer} {t : Timer} (h : l.filter p = l'.filter p)
    (ht : p t = true) : l.count t = l'.count t := by
  rw [← List.count_filter ht, h, List.count_filter ht]

/-- The calls and the posts stay, and an open timer has as many places as before. -/
theorem Inv.of_base {s : State} {b : Timers.State} (hi : Inv s) (hbase : Timers.Inv b)
    (hflag : Flagged b → b.released = true) (hcount : b.count = s.base.count)
    (hopen : ∀ t, isOpen b t = true → isOpen s.base t = true)
    (hplaces : ∀ k ∈ s.calls, isOpen b k.timer = true → 0 ≤ k.delay → places b k.timer = places s.base k.timer)
    (hposted : s.posted.filter (isOpen b) = (line b).filter (isOpen b)) : Inv { s with base := b } where
  base := hbase
  flag := hflag
  calls := hi.calls
  older := by
    intro k hk
    rw [hcount]
    exact hi.older k hk
  placed := by
    intro k hk hko hdelay
    rw [hplaces k hk hko hdelay]
    exact hi.placed k hk (hopen _ hko) hdelay
  posted := hposted

theorem inv_other {s s' : State} {a : Timers.Act} (hi : Inv s) (h : step (L := L) s (.other a) = some s') :
    Inv s' := by
  simp only [step] at h
  split at h
  · rename_i hother
    obtain ⟨b, hb, rfl⟩ := Option.map_eq_some_iff.mp h
    have hkeeps := keeps_step hi.flag hother hb
    have hopen : ∀ t, isOpen b t = true → isOpen s.base t = true := fun t => isOpen_of_shut hkeeps.shut
    refine hi.of_base (Timers.inv_step hi.base hb) hkeeps.flag hkeeps.count hopen ?_ ?_
    · intro k _ hko _
      unfold places
      rw [hkeeps.sleeping, hkeeps.admitted, count_of_filter_eq hkeeps.inLine hko]
    · rw [hkeeps.inLine]
      exact filter_of_filter hopen hi.posted
  · cases h

theorem not_isReleased_of_isOpen {s : Timers.State} {t : Timer} (hflag : Flagged s → s.released = true)
    (h : isOpen s t = true) : s.isReleased = false := by
  cases hrel : s.isReleased with
  | false => rfl
  | true =>
    unfold isOpen at h
    rw [contextReleased_of_released (released_of_isReleased hflag hrel)] at h
    cases h

/-- What `wake` does for an open timer. -/
theorem inv_wake {s s' : State} {t : Timer} (hi : Inv s) (h : step (L := L) s (.wake t) = some s') : Inv s' := by
  simp only [step] at h
  split at h
  · obtain ⟨b, hb, rfl⟩ := Option.map_eq_some_iff.mp h
    have hbase := Timers.inv_step hi.base hb
    simp only [Timers.step] at hb
    split at hb
    · rename_i hmem
      cases hb
      refine hi.of_base hbase hi.flag rfl (fun _ h => h) ?_ hi.posted
      intro k _ hko _
      have hopen : isOpen s.base k.timer = true := hko
      have herase := Timers.weight_erase s.base.sleeping t k.timer hmem
      unfold places line invoked
      dsimp only
      rw [not_isReleased_of_isOpen hi.flag hopen, if_neg Bool.false_ne_true, List.count_cons]
      simp only [beq_iff_eq]
      omega
    · cases hb
  · cases h

theorem inv_enqueue {s s' : State} {t : Timer} (hi : Inv s) (h : step (L := L) s (.enqueue t) = some s') :
    Inv s' := by
  simp only [step] at h
  obtain ⟨b, hb, rfl⟩ := Option.map_eq_some_iff.mp h
  have hbase := Timers.inv_step hi.base hb
  simp only [Timers.step] at hb
  split at hb
  · rename_i hmem
    cases hb
    have hline : line { s.base with
        admitted := s.base.admitted.erase t, queue := s.base.queue ++ [.timer t] } = line s.base ++ [t] := by
      rw [line_eq, line_eq, List.filterMap_append, ← List.append_assoc]
      rfl
    exact {
      base := hbase
      flag := hi.flag
      calls := hi.calls
      older := hi.older
      placed := by
        intro k hk hko hdelay
        have hplaced := hi.placed k hk hko hdelay
        have herase := Timers.weight_erase s.base.admitted t k.timer hmem
        unfold places at hplaced ⊢
        rw [hline, List.count_append, List.count_singleton]
        simp only [beq_iff_eq]
        omega
      posted := by
        show (s.posted ++ [t]).filter _ = _
        rw [hline, List.filter_append, List.filter_append]
        exact congrArg (· ++ _) hi.posted }
  · cases hb

/-- No call has a timer in common with another. -/
theorem call_unique {s : State} (hi : Inv s) {k k' : Call} (hk : k ∈ s.calls) (hk' : k' ∈ s.calls)
    (h : k.timer = k'.timer) : k = k' :=
  List.inj_on_of_nodup_map hi.calls hk hk' h

theorem inv_fail {s s' : State} {t : Timer} (hi : Inv s) (h : step (L := L) s (.fail t) = some s') : Inv s' := by
  simp only [step] at h
  split at h
  · rename_i hfail
    obtain ⟨hmem, hnegative⟩ := hfail
    cases h
    obtain ⟨k', hk', hneg⟩ := List.any_eq_true.mp hnegative
    rw [Bool.and_eq_true, decide_eq_true_eq, decide_eq_true_eq] at hneg
    have hcount : ∀ u, (s.base.sleeping.erase t).count u ≤ s.base.sleeping.count u :=
      fun u => List.Sublist.count_le u List.erase_sublist
    refine hi.of_base ?_ hi.flag rfl (fun _ h => h) ?_ hi.posted
    · refine hi.base.of_client ?_ rfl rfl rfl rfl rfl
      intro u
      have hle := hcount u
      unfold Timers.State.weight
      dsimp only
      omega
    · intro k hk _ hdelay
      -- the thread that ends is that of another call
      have hne : k.timer ≠ t := by
        intro heq
        rw [call_unique hi hk hk' (heq.trans hneg.1.symm)] at hdelay
        omega
      unfold places line invoked
      dsimp only
      rw [List.count_erase_of_ne hne]
  · cases h

/-- No call has the timer that the next one will get. -/
theorem timer_ne_fresh {s : State} (hi : Inv s) (c : Nat) : ∀ k ∈ s.calls, k.timer ≠ ⟨s.base.count, c⟩ := by
  intro k hk heq
  have hlt := hi.older k hk
  rw [heq] at hlt
  exact absurd hlt (Nat.lt_irrefl _)

theorem places_fresh {s : State} (hi : Inv s) (c : Nat) : places s.base ⟨s.base.count, c⟩ = 0 := by
  rw [← weight_eq]
  exact hi.base.fresh _ (Nat.le_refl _)

theorem inv_setTimeout {s s' : State} {c : Nat} {E : Engine L} {slot : Slot} {v : JSVal L} (hi : Inv s)
    (h : step s (.setTimeout c E slot v) = some s') : Inv s' := by
  simp only [step] at h
  obtain ⟨b, hb, rfl⟩ := Option.map_eq_some_iff.mp h
  have hbase := Timers.inv_step hi.base hb
  simp only [Timers.step] at hb
  split at hb
  · split at hb
    · rename_i hclosed
      cases hb
      rw [if_pos hclosed]
      exact hi
    · rename_i hopen
      cases hb
      rw [if_neg hopen]
      have hother := timer_ne_fresh hi c
      have hnew := places_fresh hi c
      exact {
        base := hbase
        flag := hi.flag
        calls := by
          rw [List.map_append, List.nodup_append]
          refine ⟨hi.calls, List.nodup_singleton _, ?_⟩
          intro t ht u hu
          obtain ⟨k, hk, rfl⟩ := List.mem_map.mp ht
          rw [List.mem_singleton.mp hu]
          exact hother k hk
        older := by
          intro k hk
          rcases List.mem_append.mp hk with hk | hk
          · exact Nat.lt_succ_of_lt (hi.older k hk)
          · rw [List.mem_singleton.mp hk]
            exact Nat.lt_succ_self _
        placed := by
          intro k hk hko hdelay
          rcases List.mem_append.mp hk with hk | hk
          · have hplaced := hi.placed k hk hko hdelay
            unfold places line invoked at hplaced ⊢
            dsimp only
            rw [List.count_cons_of_ne (hother k hk).symm]
            exact hplaced
          · rw [List.mem_singleton.mp hk]
            unfold places line invoked at hnew ⊢
            dsimp only at hnew ⊢
            rw [List.count_cons_self]
            omega
        posted := hi.posted }
  · cases hb

theorem inv_step {s s' : State} {a : Act L} (hi : Inv s) (h : step s a = some s') : Inv s' := by
  cases a with
  | tick =>
    cases h
    exact ⟨hi.base, hi.flag, hi.calls, hi.older, hi.placed, hi.posted⟩
  | setTimeout c E slot v => exact inv_setTimeout hi h
  | wake t => exact inv_wake hi h
  | fail t => exact inv_fail hi h
  | enqueue t => exact inv_enqueue hi h
  | other a => exact inv_other hi h

/-! ## Runs -/

theorem postedOnce_of_inv {s : State} (hi : Inv s) {k : Call} (hk : k ∈ s.calls)
    (hko : isOpen s.base k.timer = true) (hdelay : 0 ≤ k.delay) : PostedOnce s k.timer := by
  have hplaced := hi.placed k hk hko hdelay
  have hcount := count_of_filter_eq hi.posted hko
  unfold places at hplaced
  exact ⟨by omega, hcount.symm⟩

theorem run_ticks (s : State) (n : Nat) :
    Machine.Run step s (List.replicate n (Act.tick (L := L))) { s with now := s.now + n } := by
  induction n generalizing s with
  | zero => exact .nil s
  | succ n ih =>
    have hrest := ih { s with now := s.now + 1 }
    rw [show s.now + 1 + n = s.now + (n + 1) by omega] at hrest
    exact .cons trivial rfl hrest

/-- A thread that is past its test posts. -/
theorem run_enqueue {s : State} {t : Timer} (h : t ∈ s.base.admitted) :
    ∃ s', Machine.Run step s [Act.enqueue (L := L) t] s' ∧ s'.posted = s.posted ++ [t] := by
  have henqueue : step s (Act.enqueue (L := L) t) = some { s with
      base := { s.base with admitted := s.base.admitted.erase t, queue := s.base.queue ++ [.timer t] }
      posted := s.posted ++ [t] } := by
    simp only [step, Timers.step]
    rw [if_pos h]
    rfl
  exact ⟨_, .cons trivial henqueue (.nil _), rfl⟩

/-- A thread that sleeps wakes up when its delay has elapsed, and posts. -/
theorem run_wake {s : State} {t : Timer} (h : t ∈ s.base.sleeping) (helapsed : s.elapsed t = true)
    (hreleased : s.base.isReleased = false) :
    ∃ s', Machine.Run step s [Act.wake (L := L) t, .enqueue t] s' ∧ s'.posted = s.posted ++ [t] := by
  have hwake : step s (Act.wake (L := L) t) = some { s with
      base := { s.base with sleeping := s.base.sleeping.erase t, admitted := t :: s.base.admitted } } := by
    simp only [step, Timers.step]
    rw [if_pos helapsed, if_pos h, hreleased]
    rfl
  obtain ⟨s', hrun, hposted⟩ := run_enqueue (L := L) (s := { s with
    base := { s.base with sleeping := s.base.sleeping.erase t, admitted := t :: s.base.admitted } }) (t := t)
    List.mem_cons_self
  exact ⟨s', .cons trivial hwake hrun, hposted⟩

theorem posts_of_inv {s : State} (hi : Inv s) {k : Call} (hk : k ∈ s.calls) (hko : isOpen s.base k.timer = true)
    (hdelay : 0 ≤ k.delay) (hnot : s.posted.count k.timer = 0) :
    ∃ (as : List (Act L)) (s' : State), Machine.Run step s as s' ∧ s'.posted = s.posted ++ [k.timer] := by
  obtain ⟨honce, _⟩ := postedOnce_of_inv hi hk hko hdelay
  by_cases hadmitted : k.timer ∈ s.base.admitted
  · obtain ⟨s', hrun, hposted⟩ := run_enqueue (L := L) hadmitted
    exact ⟨_, s', hrun, hposted⟩
  · rw [List.count_eq_zero.mpr hadmitted] at honce
    have hsleeping : k.timer ∈ s.base.sleeping := List.count_pos_iff.mp (by omega)
    -- the clock goes on to the end of the delay
    have helapsed : ({ s with now := s.now + (k.start + k.delay.toNat) } : State).elapsed k.timer = true := by
      refine List.any_eq_true.mpr ⟨k, hk, ?_⟩
      simp only [decide_true, Bool.true_and, Bool.and_eq_true, decide_eq_true_eq]
      omega
    obtain ⟨s', hrun, hposted⟩ := run_wake (L := L)
      (s := { s with now := s.now + (k.start + k.delay.toNat) }) hsleeping helapsed
      (not_isReleased_of_isOpen hi.flag hko)
    exact ⟨_, s', (run_ticks s _).append hrun, hposted⟩

theorem invokes_of_inv {s : State} (hi : Inv s) {t : Timer} {rest : List Event} (hstack : s.base.stack = [])
    (hqueue : s.base.queue = .timer t :: rest) (hopen : isOpen s.base t = true) :
    ∃ s', Machine.Run step s [(.other .serve : Act L), .other .test, .other .check, .other .invoke] s' ∧
      invoked s'.base = invoked s.base ++ [t] := by
  have hreleased := not_isReleased_of_isOpen hi.flag hopen
  obtain ⟨⟨released, interrupted, queue, stack, closed, count, sleeping, admitted, log⟩, now, calls, posted⟩ := s
  unfold Timers.State.isReleased at hreleased
  unfold isOpen Timers.State.contextReleased at hopen
  dsimp only at hstack hqueue hreleased hopen
  obtain ⟨hrel, hint⟩ := Bool.or_eq_false_iff.mp hreleased
  rw [hrel, Bool.false_or, Bool.not_eq_true'] at hopen
  subst hstack hqueue hrel hint
  have hexec : Machine.exec step
      ⟨⟨false, false, .timer t :: rest, [], closed, count, sleeping, admitted, log⟩, now, calls, posted⟩
      [(.other .serve : Act L), .other .test, .other .check, .other .invoke] =
      some ⟨⟨false, false, rest, [.script, .event], closed, count, sleeping, admitted, log ++ [.invoked t]⟩,
        now, calls, posted⟩ := by
    simp [Machine.exec, step, Timers.step, isOther, Timers.State.push, Timers.State.contextReleased,
      Timers.State.isReleased, hopen]
  refine ⟨_, Machine.run_of_exec hexec, ?_⟩
  unfold invoked
  rw [List.filterMap_append]
  rfl

/-- What was invoked is a first part of what was posted, among the timers of open contexts. -/
theorem order_of_inv {s : State} (hi : Inv s) {t t' : Timer} (ht : isOpen s.base t = true)
    (ht' : isOpen s.base t' = true) (h : Precedes s.posted t t') : Precedes (invoked s.base) t t' := by
  intro l₁ l₂ hlog
  have hposted := hi.posted
  rw [show line s.base = l₁ ++ t' :: (l₂ ++ s.base.stack.filterMap timer? ++ s.base.queue.filterMap eventTimer?) by
    unfold line
    rw [hlog]
    simp] at hposted
  rw [List.filter_append, List.filter_cons_of_pos ht'] at hposted
  obtain ⟨m₁, m, hm, hm₁, hrest⟩ := List.filter_eq_append_iff.mp hposted
  obtain ⟨m₂, m₃, rfl, hclosed, _⟩ := List.filter_eq_cons_iff.mp hrest
  have hmem : t ∈ m₁ ++ m₂ := h (m₁ ++ m₂) m₃ (by rw [hm, List.append_assoc])
  -- of what was posted before `t'` only the first part is open
  have hnot : t ∉ m₂ := fun hin => absurd ht (hclosed t hin)
  have hfirst : t ∈ m₁.filter (isOpen s.base) :=
    List.mem_filter.mpr ⟨(List.mem_append.mp hmem).resolve_right hnot, ht⟩
  rw [hm₁] at hfirst
  exact (List.mem_filter.mp hfirst).1

/-- **Timers of open contexts.** In every state of every run a call with a delay that is not negative has one post
and one invocation, or can still have them, and the functions are invoked in the order of the posts. -/
theorem fires_inOrder_of_posts {as : List (Act L)} {s : State} (h : Machine.Run step init as s) : Fires L s := by
  have hi : Inv s := h.invariant (fun _ _ _ hi _ hst => inv_step hi hst) inv_init
  exact {
    once := fun k hk hko hdelay => postedOnce_of_inv hi hk hko hdelay
    posts := fun k hk hko hdelay hnot => posts_of_inv hi hk hko hdelay hnot
    invokes := fun t rest hstack hqueue hopen => invokes_of_inv hi hstack hqueue hopen
    order := fun t t' ht ht' hprec => order_of_inv hi ht ht' hprec }

/-- Two calls of `setTimeout` without a delay, and the second thread posts first. -/
def secondPostsFirst : List (Act .struct64) :=
  [.other .postNative, .other .serve, .setTimeout 0 (sampleEngine .struct64) none .undefined,
    .setTimeout 0 (sampleEngine .struct64) none .undefined, .wake ⟨1, 0⟩, .enqueue ⟨1, 0⟩, .wake ⟨0, 0⟩,
    .enqueue ⟨0, 0⟩, .other .finish, .other .serve, .other .test, .other .check, .other .invoke]

theorem fires_inOrder_of_posts_two :
    ∃ s, Machine.Run step init secondPostsFirst s ∧
      (s.posted = [⟨1, 0⟩, ⟨0, 0⟩] ∧ invoked s.base = [⟨1, 0⟩]) ∧ Fires .struct64 s := by
  obtain ⟨s, hrun, hend⟩ := Machine.exists_run_of_exec step init secondPostsFirst
    (fun s => decide (s.posted = [⟨1, 0⟩, ⟨0, 0⟩] ∧ invoked s.base = [⟨1, 0⟩])) (by decide +kernel)
  exact ⟨s, hrun, of_decide_eq_true hend, fires_inOrder_of_posts hrun⟩

/-- A call with the delay -1: its thread ends. -/
def negativeDelay : List (Act .struct64) :=
  [.other .postNative, .other .serve, .setTimeout 0 (sampleEngine .struct64) none (.int (-1)), .fail ⟨0, 0⟩]

/-- Of two calls with one delay the second function is invoked first; a call with a negative delay never fires. -/
theorem not_once_inOrder :
    (¬ ∀ (L : Layout) (as : List (Act L)) (s : State), Machine.Run step init as s → InOrder s) ∧
      ¬ ∀ (L : Layout) (as : List (Act L)) (s : State), Machine.Run step init as s → Once s := by
  constructor
  · intro hall
    obtain ⟨s, hrun, hend⟩ := Machine.exists_run_of_exec step init secondPostsFirst
      (fun s => decide (s.calls = [⟨⟨0, 0⟩, 0, 0⟩, ⟨⟨1, 0⟩, 0, 0⟩] ∧ invoked s.base = [⟨1, 0⟩] ∧
        isOpen s.base ⟨0, 0⟩ = true ∧ isOpen s.base ⟨1, 0⟩ = true)) (by decide +kernel)
    obtain ⟨hcalls, hinvoked, hopen, hopen'⟩ := of_decide_eq_true hend
    have hprec := hall _ _ s hrun 0 1 ⟨⟨0, 0⟩, 0, 0⟩ ⟨⟨1, 0⟩, 0, 0⟩ (by rw [hcalls]; rfl) (by rw [hcalls]; rfl)
      (by decide) (Int.le_refl _) hopen hopen'
    exact absurd (hprec [] [] hinvoked) List.not_mem_nil
  · intro hall
    obtain ⟨s, hrun, hend⟩ := Machine.exists_run_of_exec step init negativeDelay
      (fun s => decide (s.calls = [⟨⟨0, 0⟩, -1, 0⟩] ∧ isOpen s.base ⟨0, 0⟩ = true ∧
        s.base.sleeping = [] ∧ s.base.admitted = [] ∧ s.posted = [])) (by decide +kernel)
    obtain ⟨hcalls, hopen, hsleeping, hadmitted, hposted⟩ := of_decide_eq_true hend
    have honce := hall _ _ s hrun ⟨⟨0, 0⟩, -1, 0⟩ (by rw [hcalls]; exact List.mem_cons_self) hopen
    unfold PostedOnce at honce
    rw [hsleeping, hadmitted, hposted] at honce
    exact absurd honce.1 (by decide)

end QuickJSBridge.TimerOrder
