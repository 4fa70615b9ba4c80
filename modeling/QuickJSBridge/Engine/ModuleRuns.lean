import QuickJSBridge.Engine.LoadingFrame
import QuickJSBridge.Engine.ModuleEvaluation
import QuickJSBridge.Lib.Machine

/-!
# Any number of module scripts

A context executes one module script after the other, each with the loader of its time. Some of them fail: they
cannot be loaded or linked, or throw.

* `Settled`, `executeModuleScript_settled` — what holds of a context between two scripts;
* `executions_ran` — in every run, no module's function is called twice, and none before what it requests, except
  along circles.
-/

namespace QuickJSBridge.Es6

open Machine

variable {host : Host} {c c₁ c' : Context} {m : Nat} {ok : Bool} {fuel : Nat}

/-- `executeModuleScript` as a step. -/
structure Execution where
  host : Host
  fuel : Nat
  name : Text
  script : Script

def execute (c : Context) (e : Execution) : Option Context :=
  (executeModuleScript e.host e.fuel e.name e.script c).map Prod.snd

/-! ## Between two scripts -/

structure Settled (c : Context) : Prop where
  log : Log c
  numbered : Numbered c
  blank : Blank c
  resolved : ∀ x ∈ c.loadedModules, (c.defs x).resolved = true
  mark : ∀ x, (c.defs x).evalMark = false

theorem settled_init : Settled .init where
  log := ⟨List.nodup_nil, fun x => iff_of_false List.not_mem_nil (by simp [Context.init, ModuleDef.new]),
    fun _ hx => absurd hx List.not_mem_nil, fun _ hx => absurd hx List.not_mem_nil,
    fun pre x post heq => absurd heq (by simp [Context.init])⟩
  numbered := fun _ hx => absurd hx List.not_mem_nil
  blank := fun _ _ => rfl
  resolved := fun _ hx => absurd hx List.not_mem_nil
  mark := fun _ => rfl

theorem Extended.log (h : Extended (fun _ => False) c c') (hc : Settled c) : Log c' := by
  have hevaluated : ∀ x, c.next ≤ x → (c'.defs x).evaluated = false := by
    intro x hge
    by_cases hlt : x < c'.next
    · exact (h.new x hge hlt).1
    · rw [h.blank x (by omega)]
      rfl
  obtain ⟨new, hloaded, -⟩ := h.loaded
  refine hc.log.congr h.ran (fun x => ?_) (fun x hx => ?_) (fun x hx => ?_) fun x => ?_
  · by_cases hx : x < c.next
    · rw [h.same x hx id]
    · rw [hevaluated x (by omega), hc.blank x (by omega)]
      rfl
  · rw [hloaded]
    exact List.mem_append_left _ (hc.log.loaded x hx)
  · have hlt : x < c.next := by
      refine Classical.byContradiction fun hge => ?_
      rw [hc.log.mem, hc.blank x (by omega)] at hx
      exact absurd hx Bool.false_ne_true
    rw [h.same x hlt id]
    exact ⟨rfl, rfl, rfl⟩
  · by_cases hx : x < c.next
    · rw [h.same x hx id]
      exact List.Subset.refl _
    · rw [hc.blank x (by omega)]
      exact List.nil_subset _

theorem Extended.settled (h : Extended (fun _ => False) c c') (hc : Settled c) : Settled c' where
  log := h.log hc
  numbered := h.numbered hc.numbered
  blank := h.blank
  resolved := h.resolved hc.numbered hc.resolved
  mark := fun x => by
    by_cases hx : x < c.next
    · rw [h.same x hx id]
      exact hc.mark x
    · by_cases hlt : x < c'.next
      · exact (h.new x (by omega) hlt).2.1
      · rw [h.blank x (by omega)]
        rfl

theorem Static.numbered (h : Static c c') (hc : Numbered c) : Numbered c' := by
  intro x hx
  rw [h.loaded] at hx
  rw [h.next]
  exact hc x hx

theorem Static.blank (h : Static c c') (hc : Numbered c) (hblank : Blank c) : Blank c' := by
  intro x hx
  rw [h.next] at hx
  rw [h.freed x fun hmem => absurd (hc x hmem) (by omega)]
  exact hblank x hx

/-- A pass leaves the context settled, if it logs what it calls and clears the marks that it sets. -/
theorem Static.settled (h : Static c c') (hc : Settled c) (hlog : Log c')
    (hmark : ∀ x, (c'.defs x).evalMark = (c.defs x).evalMark) : Settled c' where
  log := hlog
  numbered := h.numbered hc.numbered
  blank := h.blank hc.numbered hc.blank
  resolved := fun x hx => by
    rw [h.loaded] at hx
    rw [h.resolved]
    exact hc.resolved x hx
  mark := fun x => (hmark x).trans (hc.mark x)

/-- Modules are freed. -/
theorem Settled.free (hc : Settled c) {l : List Nat} (hl : l ⊆ c.loadedModules) (hran : c.ran ⊆ l) :
    Settled { c with loadedModules := l } where
  log := hc.log.congr rfl (fun _ => rfl) (fun _ hx => hran hx) (fun _ _ => ⟨rfl, rfl, rfl⟩) fun _ => List.Subset.refl _
  numbered := fun x hx => hc.numbered x (hl hx)
  blank := hc.blank
  resolved := fun x hx => hc.resolved x (hl hx)
  mark := hc.mark

/-! ## One script -/

theorem Relinked.settled (h : Relinked c c') (hc : Settled c) : Settled c' :=
  h.toStatic.settled hc (h.log hc.log) h.mark

theorem evaluateModule_settled (hc : Settled c) (h : evaluateModule host fuel m c = some (ok, c')) :
    Settled c' := by
  obtain ⟨hframe, hlog, -⟩ := evaluateModule_log host fuel m c ok c' hc.log
    (fun x hx => by rw [hc.mark x] at hx; exact absurd hx Bool.false_ne_true) h
  exact hframe.toStatic.settled hc hlog hframe.mark

theorem Settled.freeModulesNotEvaluated (hc : Settled c) : Settled c.freeModulesNotEvaluated :=
  hc.free List.filter_sublist.subset fun x hx => List.mem_filter.mpr ⟨hc.log.loaded x hx, (hc.log.mem x).mp hx⟩

theorem evalFunction_settled (hc : Settled c) (h : evalFunction host fuel m c = some (ok, c')) : Settled c' := by
  obtain ⟨⟨ok₁, c₁⟩, hcreate, h⟩ := Option.bind_eq_some_iff.mp h
  obtain ⟨⟨ok₂, c₂⟩, hlink, h⟩ := Option.bind_eq_some_iff.mp h
  have hc₂ := (linkModule_relinked hlink).settled ((createModuleFunction_relinked hcreate).settled hc)
  cases ok₂ with
  | false =>
    cases h
    exact hc₂.freeModulesNotEvaluated
  | true =>
    obtain ⟨⟨ok₃, c₃⟩, hevaluate, h⟩ := Option.bind_eq_some_iff.mp h
    have hc₃ := evaluateModule_settled hc₂ hevaluate
    cases ok₃ with
    | false =>
      cases h
      exact hc₃.freeModulesNotEvaluated
    | true =>
      cases h
      exact hc₃

theorem executeModuleScript_settled {name : Text} {script : Script} (hc : Settled c)
    (h : executeModuleScript host fuel name script c = some (ok, c')) : Settled c' := by
  obtain ⟨⟨ok₁, c₁⟩, hresolve, h⟩ := Option.bind_eq_some_iff.mp h
  obtain ⟨hextended, -⟩ :=
    (resolveModule_extended host fuel).load_new hc.numbered hc.blank hc.resolved hresolve
  cases ok₁ with
  | false =>
    cases h
    exact hextended.freeModuleDef hc.numbered |>.settled hc
  | true => exact evalFunction_settled (hextended.settled hc) h

/-! ## Any number of scripts -/

/-- **What has run**, whatever scripts were executed in whatever order, and whatever failed. The function of a module
was called at most once. When it was called, all requests of its script were resolved, and what they refer to had
run without an exception, apart from modules that themselves lead to it. It has not been freed since. -/
theorem executions_ran {es : List Execution} (h : Run execute .init es c) :
    c.ran.Nodup ∧ ∀ pre x post, c.ran = pre ++ x :: post →
      x ∈ c.loadedModules ∧ (c.defs x).script.reqModuleEntries.length ≤ (c.defs x).modules.length ∧
        ∀ y, Requests c x y → Reaches c y x ∨ y ∈ pre ∧ (c.defs y).evalHasException = false := by
  have hstep : ∀ c e c', Settled c → True → execute c e = some c' → Settled c' := by
    intro c e c' hc _ hexec
    obtain ⟨⟨ok, c₁⟩, hgo, rfl⟩ := Option.map_eq_some_iff.mp hexec
    exact executeModuleScript_settled hc hgo
  have hlog := (h.invariant hstep settled_init).log
  refine ⟨hlog.nodup, fun pre x post heq => ?_⟩
  have hx : x ∈ c.ran := by
    rw [heq]
    exact List.mem_append_right _ List.mem_cons_self
  exact ⟨hlog.loaded x hx, hlog.whole x hx, hlog.order pre x post heq⟩

def sampleExecution : Execution :=
  ⟨sampleCircle, 9, ModuleNames.text ['a'], .ofRequests [ModuleNames.text ['b']]⟩

theorem executions_ran_sample : ∃ c, Run execute .init [sampleExecution] c ∧ c.ran = [1, 0] ∧
    c.ran.Nodup ∧ ∀ pre x post, c.ran = pre ++ x :: post →
      x ∈ c.loadedModules ∧ (c.defs x).script.reqModuleEntries.length ≤ (c.defs x).modules.length ∧
        ∀ y, Requests c x y → Reaches c y x ∨ y ∈ pre ∧ (c.defs y).evalHasException = false := by
  obtain ⟨c, hrun, hran⟩ :=
    exists_run_of_exec execute .init [sampleExecution] (fun c => decide (c.ran = [1, 0])) (by decide)
  exact ⟨c, hrun, of_decide_eq_true hran, executions_ran hrun⟩

end QuickJSBridge.Es6
