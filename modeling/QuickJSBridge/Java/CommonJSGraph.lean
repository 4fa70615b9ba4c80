import QuickJSBridge.Java.CommonJS
import QuickJSBridge.Lib.Acyclic

/-!
# Loading a graph of CommonJS modules

The scripts of a dependency graph call `require` on their dependencies, one after the other, with the names as
they are recorded. A module is recorded when its script has run to its end, so a cycle of modules that are
not recorded is never found in the map.

* `Graph`, `Follows` — the dependencies, and the runs in which the innermost script does what it has to;
* `Terminates` — loading a module ends, no script is evaluated twice, and a module that is still being loaded
  is returned as it is;
* `Edge` — the dependencies that are not recorded yet;
* `terminates_iff_noCycle` — loading terminates iff these have no cycle.
-/

namespace QuickJSBridge.CommonJS

open ModuleNames (convertModuleName)
open Relation (ReflTransGen TransGen)
open Acyclic (NoCycle)

/-! ## Graphs -/

/-- The dependencies of each module, in the order of the calls. Their names resolve to themselves. -/
structure Graph where
  deps : Text → List Text
  resolved : ∀ m, ∀ d ∈ deps m, convertModuleName none (some d) = .ok (some d)

namespace Graph

variable (G : Graph)

/-- The innermost script requires its next dependency, or ends. -/
def next (s : State) : Option Act :=
  match s.frames with
  | [] => none
  | f :: _ =>
    match (f.name.map G.deps).bind (·[f.requires]?) with
    | some d => some (.require f.name .undefined (some d) true)
    | none => some (.finish none)

def Follows (s : State) (a : Act) : Prop := G.next s = some a

end Graph

/-- What a client starts. -/
inductive Start where
  | executeModule
  | require
  deriving DecidableEq

def Start.act (name : Text) : Start → Act
  | executeModule => .executeModule (some name) true
  | require => .require none .undefined (some name) true

/-- A `require` that meets a module which is still being loaded returns it. -/
def Call.Partial (c : Call) : Prop :=
  c.recorded = none → ∀ m, c.loading = some m → c.outcome = .returned m

/-- What was added between two states: no script is evaluated twice, and every `require` returns a module
that is still being loaded. -/
def Once (s s' : State) : Prop :=
  (∃ evaluated, s'.evaluated = s.evaluated ++ evaluated ∧ evaluated.Nodup) ∧
    ∃ calls, s'.calls = s.calls ++ calls ∧ ∀ c ∈ calls, c.Partial

/-- Loading module `n` ends, each script being evaluated once at most. -/
def Terminates (G : Graph) (s : State) (start : Start) (n : Text) : Prop :=
  ∃ s₁ as s', step s (start.act n) = some s₁ ∧ Machine.GuardedRun step G.Follows s₁ as s' ∧
    s'.frames = [] ∧ Once s s'

/-- `d` is a dependency of `m` that was not recorded in state `s`. -/
def Edge (G : Graph) (s : State) (d m : Text) : Prop := d ∈ G.deps m ∧ s.modules d = none

/-! ## The steps of a script -/

/-- A frame of module `n` that has made `i` calls. -/
def frameOf (n : Text) (module : Nat) (byRequire : Bool) (i : Nat) : Frame :=
  ⟨some n, some n, module, byRequire, i⟩

section

variable {G : Graph} {s s' : State} {n d : Text} {module i : Nat} {byRequire : Bool} {rest : List Frame}

theorem next_require (hframes : s.frames = frameOf n module byRequire i :: rest)
    (hd : (G.deps n)[i]? = some d) : G.next s = some (.require (some n) .undefined (some d) true) := by
  unfold Graph.next
  rw [hframes]
  show (match (G.deps n)[i]? with
    | some d => some (Act.require (some n) .undefined (some d) true)
    | none => some (.finish none)) = _
  rw [hd]

theorem next_finish (hframes : s.frames = frameOf n module byRequire i :: rest)
    (hd : (G.deps n)[i]? = none) : G.next s = some (.finish none) := by
  unfold Graph.next
  rw [hframes]
  show (match (G.deps n)[i]? with
    | some d => some (Act.require (some n) .undefined (some d) true)
    | none => some (.finish none)) = _
  rw [hd]

/-- The call that the script makes of a dependency. -/
def callOf (s : State) (n d : Text) (outcome : Outcome) : Call :=
  ⟨some n, .undefined, some d, some d, s.modules d, s.loading (some d), outcome⟩

theorem loading_frameOf (s : State) (name : Option Text) (i j : Nat) :
    State.loading { s with frames := frameOf n module byRequire i :: rest } name =
      State.loading { s with frames := frameOf n module byRequire j :: rest } name := by
  unfold State.loading
  rw [List.find?_cons, List.find?_cons]
  show Option.map _ (match decide (some n = name) with | true => _ | false => _) =
    Option.map _ (match decide (some n = name) with | true => _ | false => _)
  cases decide (some n = name) <;> rfl

/-- A script whose name resolves to itself. -/
theorem executeModule_resolved (s : State) (hn : convertModuleName none (some n) = .ok (some n))
    (byRequire : Bool) :
    s.executeModule (some n) true byRequire = ({ s with
      frames := frameOf n s.fresh byRequire 0 :: s.frames
      fresh := s.fresh + 1
      evaluated := s.evaluated ++ [some n] }, .evaluated) := by
  unfold State.executeModule State.executeModuleScript
  rw [if_pos rfl, hn]
  rfl

/-- The innermost script of module `n` may call `require`. -/
theorem step_require (hframes : s.frames = frameOf n module byRequire i :: rest)
    (hd : convertModuleName none (some d) = .ok (some d)) :
    step s (.require (some n) .undefined (some d) true) = some
      (State.lookup { s with frames := frameOf n module byRequire (i + 1) :: rest }
        (some n) .undefined (some d) (some d) true) := by
  have hknows : ∀ id ∈ some n, s.Knows id := by
    intro id hid
    cases hid
    refine Or.inr ?_
    unfold State.loading
    rw [hframes, List.find?_cons]
    show Option.map _ (match decide (some n = some n) with | true => _ | false => _) ≠ none
    rw [decide_eq_true rfl]
    exact fun h => by cases h
  have hcount : s.countRequire = { s with frames := frameOf n module byRequire (i + 1) :: rest } := by
    unfold State.countRequire
    rw [hframes]
    rfl
  show (if ∀ id ∈ some n, s.Knows id then
    some (s.countRequire.require (some n) .undefined (some d) true) else none) = _
  rw [if_pos hknows, hcount, require_of_resolved rfl hd]

theorem eq_frames (hframes : s.frames = frameOf n module byRequire i :: rest) :
    { s with frames := frameOf n module byRequire i :: rest } = s := by
  rw [← hframes]

/-- A dependency that is recorded is returned. -/
theorem step_require_recorded (hframes : s.frames = frameOf n module byRequire i :: rest)
    (hd : convertModuleName none (some d) = .ok (some d)) {m : Nat} (hm : s.modules d = some m) :
    step s (.require (some n) .undefined (some d) true) = some { s with
      frames := frameOf n module byRequire (i + 1) :: rest
      calls := s.calls ++ [callOf s n d (.returned m)]
      returned := s.returned ++ [⟨some d, none, m, s.exports m⟩] } := by
  have hpath : (some d).bind s.modules = some m := hm
  rw [step_require hframes hd]
  rw [lookup_of_recorded (s := { s with frames := frameOf n module byRequire (i + 1) :: rest }) hpath]
  rw [loading_frameOf s (some d) (i + 1) i, eq_frames hframes]
  rfl

/-- The script of one that is not recorded is evaluated. -/
theorem step_require_fresh (hframes : s.frames = frameOf n module byRequire i :: rest)
    (hd : convertModuleName none (some d) = .ok (some d)) (hm : s.modules d = none) :
    step s (.require (some n) .undefined (some d) true) = some { s with
      frames := frameOf d s.fresh true 0 :: frameOf n module byRequire (i + 1) :: rest
      fresh := s.fresh + 1
      calls := s.calls ++ [callOf s n d .evaluated]
      evaluated := s.evaluated ++ [some d] } := by
  have hpath : (some d).bind s.modules = none := hm
  rw [step_require hframes hd]
  rw [lookup_of_not_recorded (s := { s with frames := frameOf n module byRequire (i + 1) :: rest }) hpath
    (executeModule_resolved _ hd true)]
  rw [loading_frameOf s (some d) (i + 1) i, eq_frames hframes]
  rfl

/-- A script that ends is recorded. -/
theorem step_finish (hframes : s.frames = frameOf n module byRequire i :: rest) :
    ∃ returned, step s (.finish none) = some { s with
      modules := Function.update s.modules n (some module)
      frames := rest
      returned := returned } := by
  unfold step
  rw [hframes]
  exact ⟨_, rfl⟩

end

/-! ## Without a cycle loading ends

By induction on the accessible module, and for each module on the calls that its script still has to make. -/

/-- What is recorded stays recorded. -/
def Grown (s s' : State) : Prop := ∀ m, s.modules m ≠ none → s'.modules m ≠ none

/-- The modules that wait are above `n`. -/
def Above (G : Graph) (s₀ : State) (n : Text) (rest : List Frame) : Prop :=
  ∀ f ∈ rest, ∃ k, f.key = some k ∧ TransGen (Edge G s₀) n k

/-- What was added for module `n`: scripts below it, each of which was not recorded and then is. -/
structure Added (G : Graph) (s₀ : State) (n : Text) (s s' : State) : Prop where
  grown : Grown s s'
  evaluated : ∃ names : List Text, s'.evaluated = s.evaluated ++ names.map some ∧ names.Nodup ∧
    ∀ x ∈ names, TransGen (Edge G s₀) x n ∧ s.modules x = none ∧ s'.modules x ≠ none
  calls : ∃ calls, s'.calls = s.calls ++ calls ∧ ∀ c ∈ calls, c.Partial

/-- A script of `n` that has begun runs to its end. -/
def Loads (G : Graph) (s₀ : State) (n : Text) : Prop :=
  ∀ (s : State) (module : Nat) (byRequire : Bool) (rest : List Frame),
    s.frames = frameOf n module byRequire 0 :: rest → Grown s₀ s → Above G s₀ n rest →
    ∃ as s', Machine.GuardedRun step G.Follows s as s' ∧ s'.frames = rest ∧ s'.modules n ≠ none ∧
      Added G s₀ n s s'

section

variable {G : Graph} {s₀ s s₁ s₂ s' : State} {n d : Text} {module i : Nat} {byRequire : Bool}
  {rest : List Frame}

theorem Grown.trans (h : Grown s s₁) (h' : Grown s₁ s') : Grown s s' := fun m hm => h' m (h m hm)

theorem Added.trans (h : Added G s₀ n s s₁) (h' : Added G s₀ n s₁ s') : Added G s₀ n s s' := by
  obtain ⟨names, hevaluated, hnodup, hnames⟩ := h.evaluated
  obtain ⟨names', hevaluated', hnodup', hnames'⟩ := h'.evaluated
  obtain ⟨calls, hcalls, hopened⟩ := h.calls
  obtain ⟨calls', hcalls', hopened'⟩ := h'.calls
  refine ⟨h.grown.trans h'.grown, ⟨names ++ names', ?_, ?_, fun x hx => ?_⟩, calls ++ calls', ?_,
    fun c hc => ?_⟩
  · rw [hevaluated', hevaluated, List.map_append, List.append_assoc]
  · -- the second names are not recorded in between, the first ones are
    refine List.nodup_append.mpr ⟨hnodup, hnodup', fun x hx y hy heq => ?_⟩
    rw [heq] at hx
    exact (hnames x (heq ▸ hx)).2.2 (heq ▸ (hnames' y hy).2.1)
  · rcases List.mem_append.mp hx with hx | hx
    · obtain ⟨hbelow, hnot, hrec⟩ := hnames x hx
      exact ⟨hbelow, hnot, h'.grown x hrec⟩
    · obtain ⟨hbelow, hnot, hrec⟩ := hnames' x hx
      refine ⟨hbelow, ?_, hrec⟩
      by_contra hne
      exact h.grown x hne hnot
  · rw [hcalls', hcalls, List.append_assoc]
  · exact (List.mem_append.mp hc).elim (hopened c) (hopened' c)

/-- What is loading waits above the module that requires, so it is not a dependency that is not recorded. -/
theorem loading_eq_none (hframes : s.frames = frameOf n module byRequire i :: rest)
    (habove : Above G s₀ n rest) (hedge : Edge G s₀ d n) (hself : ¬ TransGen (Edge G s₀) d d) :
    s.loading (some d) = none := by
  unfold State.loading
  rw [Option.map_eq_none_iff, List.find?_eq_none, hframes]
  intro f hf hkey
  have hkey : f.key = some d := of_decide_eq_true hkey
  rcases List.mem_cons.mp hf with rfl | hf
  · have hn : n = d := Option.some.inj hkey
    rw [hn] at hedge
    exact hself (.single hedge)
  · obtain ⟨k, hk, hbelow⟩ := habove f hf
    rw [hk] at hkey
    rw [Option.some.inj hkey] at hbelow
    exact hself (.head hedge hbelow)

/-- One call: afterwards the dependency is recorded. -/
theorem load_dependency (hself : ∀ d, Edge G s₀ d n → ¬ TransGen (Edge G s₀) d d)
    (hloads : ∀ d, Edge G s₀ d n → Loads G s₀ d)
    (hframes : s.frames = frameOf n module byRequire i :: rest) (hgrown : Grown s₀ s)
    (habove : Above G s₀ n rest) (hd : (G.deps n)[i]? = some d) :
    ∃ as s', Machine.GuardedRun step G.Follows s as s' ∧
      s'.frames = frameOf n module byRequire (i + 1) :: rest ∧ Added G s₀ n s s' := by
  have hmem : d ∈ G.deps n := List.mem_of_getElem? hd
  have hresolved := G.resolved n d hmem
  cases hm : s.modules d with
  | some m =>
    refine ⟨_, _, .cons (next_require hframes hd) (step_require_recorded hframes hresolved hm) (.nil _),
      rfl, ⟨fun _ => id, ⟨[], (List.append_nil _).symm, List.nodup_nil, fun x hx => (by cases hx)⟩,
        [callOf s n d (.returned m)], rfl, fun c hc hnone => ?_⟩⟩
    rw [List.mem_singleton.mp hc] at hnone
    have hnone : s.modules d = none := hnone
    rw [hm] at hnone
    cases hnone
  | none =>
    have hnone₀ : s₀.modules d = none := by
      by_contra hne
      exact hgrown d hne hm
    have hedge : Edge G s₀ d n := ⟨hmem, hnone₀⟩
    have hstep := step_require_fresh hframes hresolved hm
    have habove' : Above G s₀ d (frameOf n module byRequire (i + 1) :: rest) := by
      intro f hf
      rcases List.mem_cons.mp hf with rfl | hf
      · exact ⟨n, rfl, .single hedge⟩
      · obtain ⟨k, hk, hbelow⟩ := habove f hf
        exact ⟨k, hk, .head hedge hbelow⟩
    obtain ⟨as, s', hrun, hframes', hrec, hadded⟩ := hloads d hedge
      { s with
        frames := frameOf d s.fresh true 0 :: frameOf n module byRequire (i + 1) :: rest
        fresh := s.fresh + 1
        calls := s.calls ++ [callOf s n d .evaluated]
        evaluated := s.evaluated ++ [some d] } _ _ _ rfl hgrown habove'
    refine ⟨_, s', .cons (next_require hframes hd) hstep hrun, hframes', ?_⟩
    obtain ⟨names, hevaluated, hnodup, hnames⟩ := hadded.evaluated
    obtain ⟨calls, hcalls, hopened⟩ := hadded.calls
    refine ⟨hadded.grown, ⟨d :: names, ?_, ?_, fun x hx => ?_⟩, callOf s n d .evaluated :: calls, ?_,
      fun c hc => ?_⟩
    · rw [hevaluated]
      show s.evaluated ++ [some d] ++ names.map some = s.evaluated ++ some d :: names.map some
      rw [List.append_assoc]
      rfl
    · refine List.nodup_cons.mpr ⟨fun hx => ?_, hnodup⟩
      exact hself d hedge (hnames d hx).1
    · rcases List.mem_cons.mp hx with rfl | hx
      · exact ⟨.single hedge, hm, hrec⟩
      · obtain ⟨hbelow, hnot, hrec⟩ := hnames x hx
        exact ⟨hbelow.tail hedge, hnot, hrec⟩
    · rw [hcalls]
      show s.calls ++ [callOf s n d .evaluated] ++ calls = _
      rw [List.append_assoc]
      rfl
    · rcases List.mem_cons.mp hc with rfl | hc
      · intro _ m hloading
        have hloading : s.loading (some d) = some m := hloading
        rw [loading_eq_none hframes habove hedge (hself d hedge)] at hloading
        cases hloading
      · exact hopened c hc

/-- The calls that are left, then the end. -/
theorem load_rest (hself : ∀ d, Edge G s₀ d n → ¬ TransGen (Edge G s₀) d d)
    (hloads : ∀ d, Edge G s₀ d n → Loads G s₀ d) (left : Nat)
    (hframes : s.frames = frameOf n module byRequire i :: rest) (hgrown : Grown s₀ s)
    (habove : Above G s₀ n rest) (hleft : (G.deps n).length = i + left) :
    ∃ as s', Machine.GuardedRun step G.Follows s as s' ∧ s'.frames = rest ∧ s'.modules n ≠ none ∧
      Added G s₀ n s s' := by
  induction left generalizing s i with
  | zero =>
    have hd : (G.deps n)[i]? = none := List.getElem?_eq_none (by omega)
    obtain ⟨returned, hstep⟩ := step_finish hframes
    refine ⟨_, _, .cons (next_finish hframes hd) hstep (.nil _), rfl, ?_, fun m hm => ?_,
      ⟨[], (List.append_nil _).symm, List.nodup_nil, fun x hx => (by cases hx)⟩,
      [], (List.append_nil _).symm, fun c hc => by cases hc⟩
    · show Function.update s.modules n (some module) n ≠ none
      rw [Function.update_self]
      exact fun h => by cases h
    · show Function.update s.modules n (some module) m ≠ none
      by_cases hmn : m = n
      · rw [hmn, Function.update_self]
        exact fun h => by cases h
      · rw [Function.update_of_ne hmn]
        exact hm
  | succ left ih =>
    have hlt : i < (G.deps n).length := by omega
    obtain ⟨as, s₁, hrun, hframes₁, hadded⟩ := load_dependency hself hloads hframes hgrown habove
      (List.getElem?_eq_getElem hlt)
    obtain ⟨as', s', hrun', hframes', hrec, hadded'⟩ :=
      ih hframes₁ (hgrown.trans hadded.grown) (by omega)
    exact ⟨as ++ as', s', hrun.append hrun', hframes', hrec, hadded.trans hadded'⟩

theorem loads_of_acc (h : Acc (Edge G s₀) n) : Loads G s₀ n := by
  induction h with
  | intro n hacc ih =>
    intro s module byRequire rest hframes hgrown habove
    exact load_rest (fun d hd => Acyclic.not_transGen_self_of_acc (hacc d hd)) ih (G.deps n).length hframes
      hgrown habove (Nat.zero_add _).symm

end

/-! ## A module that has been loaded is on no cycle

A script ends when all its dependencies are recorded, so by then they are accessible, and so is it. -/

/-- The innermost script waits for nothing, each other one for the one above it; the other dependencies that
they have called are recorded. The outermost is that of `n`. -/
def Waiting (G : Graph) (modules : Text → Option Nat) (n : Text) : Option Text → List Frame → Prop
  | above, [] => above = some n
  | above, f :: rest =>
    ∃ m, f.name = some m ∧ f.key = some m ∧
      (∀ d ∈ (G.deps m).take f.requires, modules d ≠ none ∨ above = some d) ∧
      Waiting G modules n (some m) rest

structure Sound (G : Graph) (s₀ : State) (n : Text) (s : State) : Prop where
  recorded : ∀ m, s.modules m ≠ none → s₀.modules m ≠ none ∨ Acc (Edge G s₀) m
  waiting : s.frames = [] ∧ Acc (Edge G s₀) n ∨ s.frames ≠ [] ∧ Waiting G s.modules n none s.frames

section

variable {G : Graph} {s₀ s s' : State} {n d : Text}

theorem Waiting.mono {modules modules' : Text → Option Nat}
    (hgrown : ∀ m, modules m ≠ none → modules' m ≠ none) {above : Option Text} {frames : List Frame}
    (h : Waiting G modules n above frames) : Waiting G modules' n above frames := by
  induction frames generalizing above with
  | nil => exact h
  | cons f rest ih =>
    obtain ⟨m, hname, hkey, htaken, hrest⟩ := h
    exact ⟨m, hname, hkey, fun d hd => (htaken d hd).imp_left (hgrown d), ih hrest⟩

/-- The script above has ended and is recorded. -/
theorem Waiting.of_recorded {modules : Text → Option Nat} {m : Text} {f : Frame} {frames : List Frame}
    (hm : modules m ≠ none) (h : Waiting G modules n (some m) (f :: frames)) :
    Waiting G modules n none (f :: frames) := by
  obtain ⟨m', hname, hkey, htaken, hrest⟩ := h
  refine ⟨m', hname, hkey, fun d hd => Or.inl ?_, hrest⟩
  rcases htaken d hd with hd | hd
  · exact hd
  · rw [← Option.some.inj hd]
    exact hm

/-- The script of `m` calls `require` on `d`. -/
theorem sound_require {m : Text} {module i : Nat} {byRequire : Bool} {rest : List Frame}
    (hi : Sound G s₀ n s) (hframes : s.frames = frameOf m module byRequire i :: rest)
    (htaken : ∀ d ∈ (G.deps m).take i, s.modules d ≠ none) (hrest : Waiting G s.modules n (some m) rest)
    (hd : (G.deps m)[i]? = some d)
    (h : step s (.require (some m) .undefined (some d) true) = some s') : Sound G s₀ n s' := by
  have hresolved := G.resolved m d (List.mem_of_getElem? hd)
  have htaken' : ∀ d' ∈ (G.deps m).take (i + 1), s.modules d' ≠ none ∨ d' = d := by
    intro d' hd'
    rw [List.take_add_one, hd] at hd'
    rcases List.mem_append.mp hd' with hd' | hd'
    · exact Or.inl (htaken d' hd')
    · exact Or.inr (List.mem_singleton.mp hd')
  cases hm : s.modules d with
  | some k =>
    rw [step_require_recorded hframes hresolved hm] at h
    rw [← Option.some.inj h]
    refine ⟨hi.recorded, Or.inr ⟨List.cons_ne_nil _ _, m, rfl, rfl, fun d' hd' => Or.inl ?_, hrest⟩⟩
    rcases htaken' d' hd' with hrec | rfl
    · exact hrec
    · show s.modules d' ≠ none
      rw [hm]
      exact fun h => by cases h
  | none =>
    rw [step_require_fresh hframes hresolved hm] at h
    rw [← Option.some.inj h]
    refine ⟨hi.recorded, Or.inr ⟨List.cons_ne_nil _ _, d, rfl, rfl, fun d' hd' => (by cases hd'), m, rfl, rfl,
      fun d' hd' => ?_, hrest⟩⟩
    exact (htaken' d' hd').imp_right fun heq => congrArg some heq.symm

/-- The script of `m` ends: its dependencies are recorded, so `m` is accessible. -/
theorem sound_finish {m : Text} {module i : Nat} {byRequire : Bool} {rest : List Frame}
    (hi : Sound G s₀ n s) (hframes : s.frames = frameOf m module byRequire i :: rest)
    (htaken : ∀ d ∈ (G.deps m).take i, s.modules d ≠ none) (hrest : Waiting G s.modules n (some m) rest)
    (hd : (G.deps m)[i]? = none) (h : step s (.finish none) = some s') : Sound G s₀ n s' := by
  have hacc : Acc (Edge G s₀) m := by
    refine Acc.intro m fun d hedge => ?_
    have hmem : d ∈ (G.deps m).take i := by
      rw [List.take_of_length_le (List.getElem?_eq_none_iff.mp hd)]
      exact hedge.1
    exact (hi.recorded d (htaken d hmem)).resolve_left fun hne => hne hedge.2
  obtain ⟨returned, hstep⟩ := step_finish hframes
  rw [hstep] at h
  rw [← Option.some.inj h]
  have hupdate : ∀ k, Function.update s.modules m (some module) k ≠ none ↔ k = m ∨ s.modules k ≠ none := by
    intro k
    by_cases hk : k = m
    · rw [hk, Function.update_self]
      exact iff_of_true (fun h => by cases h) (Or.inl rfl)
    · rw [Function.update_of_ne hk]
      exact ⟨Or.inr, fun h => h.resolve_left hk⟩
  refine ⟨fun k hk => ?_, ?_⟩
  · rcases (hupdate k).mp hk with rfl | hk
    · exact Or.inr hacc
    · exact hi.recorded k hk
  · cases rest with
    | nil =>
      have hn : m = n := Option.some.inj hrest
      exact Or.inl ⟨rfl, hn ▸ hacc⟩
    | cons f rest =>
      refine Or.inr ⟨List.cons_ne_nil _ _, Waiting.of_recorded ((hupdate m).mpr (Or.inl rfl)) ?_⟩
      exact hrest.mono fun k hk => (hupdate k).mpr (Or.inr hk)

theorem sound_step {a : Act} (hi : Sound G s₀ n s) (hguard : G.Follows s a) (h : step s a = some s') :
    Sound G s₀ n s' := by
  rcases hi.waiting with ⟨hnil, _⟩ | ⟨hne, hwaiting⟩
  · unfold Graph.Follows Graph.next at hguard
    rw [hnil] at hguard
    cases hguard
  · cases hframes : s.frames with
    | nil => exact absurd hframes hne
    | cons f rest =>
      rw [hframes] at hwaiting
      obtain ⟨m, hname, hkey, htaken, hrest⟩ := hwaiting
      have hframe : s.frames = frameOf m f.module f.byRequire f.requires :: rest := by
        rw [hframes]
        cases f
        cases hname
        cases hkey
        rfl
      have htaken' : ∀ d ∈ (G.deps m).take f.requires, s.modules d ≠ none :=
        fun d hd => (htaken d hd).resolve_right fun h => by cases h
      unfold Graph.Follows at hguard
      cases hd : (G.deps m)[f.requires]? with
      | some d =>
        rw [next_require hframe hd] at hguard
        rw [← Option.some.inj hguard] at h
        exact sound_require hi hframe htaken' hrest hd h
      | none =>
        rw [next_finish hframe hd] at hguard
        rw [← Option.some.inj hguard] at h
        exact sound_finish hi hframe htaken' hrest hd h

/-- A run that has loaded module `n` shows that it is accessible. -/
theorem acc_of_run {module : Nat} {byRequire : Bool} {as : List Act}
    (hmodules : s.modules = s₀.modules) (hframes : s.frames = [frameOf n module byRequire 0])
    (hrun : Machine.GuardedRun step G.Follows s as s') (hend : s'.frames = []) :
    Acc (Edge G s₀) n := by
  have hsound : Sound G s₀ n s := by
    refine ⟨fun m hm => Or.inl (hmodules ▸ hm), Or.inr ⟨?_, ?_⟩⟩
    · rw [hframes]
      exact List.cons_ne_nil _ _
    · rw [hframes]
      exact ⟨n, rfl, rfl, fun d hd => (by cases hd), rfl⟩
  have hfinal : Sound G s₀ n s' :=
    hrun.invariant (fun _ _ _ hi hguard hst => sound_step hi hguard hst) hsound
  rcases hfinal.waiting with ⟨_, hacc⟩ | ⟨hne, _⟩
  · exact hacc
  · exact absurd hend hne

end

/-! ## Loading a module -/

section

variable {G : Graph} {s s₁ : State} {n : Text}

/-- From the state after the start, which has begun the script of `n`. -/
theorem terminates_iff_acc {start : Start} {byRequire : Bool} (calls : List Call)
    (hstep : step s (start.act n) = some s₁)
    (hs₁ : s₁ = { s with
      frames := [frameOf n s.fresh byRequire 0]
      fresh := s.fresh + 1
      calls := s.calls ++ calls
      evaluated := s.evaluated ++ [some n] })
    (hcalls : ∀ c ∈ calls, c.Partial) : Terminates G s start n ↔ Acc (Edge G s) n := by
  constructor
  · rintro ⟨s₁', as, s', hstep', hrun, hend, _⟩
    rw [hstep] at hstep'
    cases hstep'
    exact acc_of_run (by rw [hs₁]) (by rw [hs₁]) hrun hend
  · intro hacc
    obtain ⟨as, s', hrun, hend, _, hadded⟩ := loads_of_acc hacc
      { s with
        frames := [frameOf n s.fresh byRequire 0]
        fresh := s.fresh + 1
        calls := s.calls ++ calls
        evaluated := s.evaluated ++ [some n] } s.fresh byRequire [] rfl (fun _ => id)
      (fun f hf => by cases hf)
    obtain ⟨names, hevaluated, hnodup, hnames⟩ := hadded.evaluated
    obtain ⟨calls', hcalls', hopened⟩ := hadded.calls
    refine ⟨s₁, as, s', hstep, hs₁ ▸ hrun, hend, ⟨(n :: names).map some, ?_, ?_⟩, calls ++ calls', ?_,
      fun c hc => ?_⟩
    · rw [hevaluated]
      show s.evaluated ++ [some n] ++ names.map some = s.evaluated ++ some n :: names.map some
      rw [List.append_assoc]
      rfl
    · apply List.Nodup.map (Option.some_injective _)
      refine List.nodup_cons.mpr ⟨fun hn => ?_, hnodup⟩
      exact Acyclic.not_transGen_self_of_acc hacc (hnames n hn).1
    · rw [hcalls']
      exact List.append_assoc _ _ _
    · exact (List.mem_append.mp hc).elim (hcalls c) (hopened c)

theorem terminates_iff (start : Start) (hidle : s.frames = [])
    (hn : convertModuleName none (some n) = .ok (some n)) :
    Terminates G s start n ↔ (start = .require ∧ s.modules n ≠ none) ∨ Acc (Edge G s) n := by
  cases start with
  | executeModule =>
    have hstep : step s (.executeModule (some n) true) = some (s.executeModule (some n) true false).1 := rfl
    rw [executeModule_resolved s hn, hidle] at hstep
    rw [terminates_iff_acc [] hstep (by rw [List.append_nil]) (fun c hc => by cases hc)]
    exact ⟨Or.inr, fun h => h.resolve_left fun h => by cases h.1⟩
  | require =>
    have hstep : step s (.require none .undefined (some n) true) =
        some (s.lookup none .undefined (some n) (some n) true) := by
      show (if ∀ id ∈ (none : Option Text), s.Knows id then
        some (s.countRequire.require none .undefined (some n) true) else none) = _
      have hcount : s.countRequire = s := by
        unfold State.countRequire
        rw [hidle]
      rw [if_pos (fun id hid => by cases hid), hcount, require_of_resolved rfl hn]
    cases hm : s.modules n with
    | some m =>
      refine iff_of_true ?_ (Or.inl ⟨rfl, fun h => by cases h⟩)
      have hpath : (some n).bind s.modules = some m := hm
      rw [lookup_of_recorded hpath] at hstep
      refine ⟨_, [], _, hstep, .nil _, hidle, ⟨[], (List.append_nil _).symm, List.nodup_nil⟩, _, rfl,
        fun c hc hnone => ?_⟩
      rw [List.mem_singleton.mp hc] at hnone
      cases hpath.symm.trans hnone
    | none =>
      have hpath : (some n).bind s.modules = none := hm
      rw [lookup_of_not_recorded hpath (executeModule_resolved s hn true), hidle, hpath] at hstep
      dsimp only at hstep
      have hloading : s.loading (some n) = none := by
        unfold State.loading
        rw [hidle]
        rfl
      rw [terminates_iff_acc [⟨none, .undefined, some n, some n, none, s.loading (some n), .evaluated⟩] hstep
        rfl (fun c hc _ m hloaded => ?_)]
      · exact ⟨Or.inr, fun h => h.resolve_left fun h => h.2 rfl⟩
      · rw [List.mem_singleton.mp hc] at hloaded
        have hloaded : s.loading (some n) = some m := hloaded
        rw [hloading] at hloaded
        cases hloaded

/-- **Loading.** While no module is being loaded, `executeModule` and `require` of a module terminate, with
every script evaluated once at most, iff it is a `require` of a module that is recorded, or no cycle of
modules that are not recorded is reached. -/
theorem terminates_iff_noCycle (G : Graph) (s : State) (start : Start) (n : Text) (hidle : s.frames = [])
    (hn : convertModuleName none (some n) = .ok (some n))
    (hfin : {m | ReflTransGen (Edge G s) m n}.Finite) :
    Terminates G s start n ↔
      (start = .require ∧ s.modules n ≠ none) ∨ NoCycle (Edge G s) n := by
  rw [terminates_iff start hidle hn, Acyclic.acc_iff_noCycle hfin]

end

/-- The module `x` requires `y`, and that nothing. -/
def sampleGraph : Graph where
  deps m := if m = sampleName then [[0x79]] else []
  resolved m d hd := by
    split at hd
    · rw [List.mem_singleton.mp hd]
      rfl
    · cases hd

theorem edge_sampleGraph {d m : Text} (h : Edge sampleGraph init d m) : d = [0x79] ∧ m = sampleName := by
  have hmem : d ∈ (if m = sampleName then [[0x79]] else []) := h.1
  split at hmem
  · rename_i hm
    exact ⟨List.mem_singleton.mp hmem, hm⟩
  · cases hmem

theorem terminates_iff_noCycle_sampleGraph : Terminates sampleGraph init .require sampleName := by
  have hbelow : ∀ m, ReflTransGen (Edge sampleGraph init) m sampleName → m = sampleName ∨ m = [0x79] := by
    intro m hm
    rcases Relation.ReflTransGen.cases_head hm with rfl | ⟨_, hedge, _⟩
    · exact Or.inl rfl
    · exact Or.inr (edge_sampleGraph hedge).1
  have hfin : {m | ReflTransGen (Edge sampleGraph init) m sampleName}.Finite :=
    (Set.toFinite {sampleName, [0x79]}).subset hbelow
  refine (terminates_iff_noCycle sampleGraph init .require sampleName rfl rfl hfin).mpr (Or.inr ?_)
  intro m _ hcycle
  -- the first edge of a cycle starts at `y`, the last one ends at `x`
  obtain ⟨_, hfirst, _⟩ := Relation.TransGen.head'_iff.mp hcycle
  obtain ⟨_, _, hlast⟩ := Relation.TransGen.tail'_iff.mp hcycle
  have heq := (edge_sampleGraph hfirst).1.symm.trans (edge_sampleGraph hlast).2
  exact absurd heq (by decide)

/-- Every module requires `x`. -/
def sampleCycle : Graph where
  deps _ := [sampleName]
  resolved m d hd := by
    rw [List.mem_singleton.mp hd]
    rfl

/-- The module `x` requires itself. -/
theorem not_terminates_cycle : ¬ Terminates sampleCycle init .require sampleName := by
  intro h
  rcases (terminates_iff .require rfl rfl).mp h with ⟨_, hne⟩ | hacc
  · exact hne rfl
  · exact Acyclic.not_rel_self_of_acc hacc ⟨List.mem_singleton.mpr rfl, rfl⟩

end QuickJSBridge.CommonJS
