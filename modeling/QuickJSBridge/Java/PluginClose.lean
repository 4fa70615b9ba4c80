import Mathlib.Data.List.Count
import Mathlib.Data.List.Nodup
import Mathlib.Data.List.Perm.Basic
import Mathlib.Logic.Function.Iterate

/-!
# Closing contexts whose plugins throw

`JSContext.close` calls the plugins first, in a loop without a handler; `QuickJS.close` closes its contexts in
such a loop. The event that they run in is called directly on the owner thread, and on another thread by the
queue, which drops what a non-blocking event throws.

* `Tables` — the handles and callbacks of a context; whatever native reference Java holds is in them;
* `closeContext`, `closeRuntime` — the two runnables, with what they throw;
* `ContextClosed`, `RuntimeClosed` — nothing is left half closed;
* `survives_iff_quiet` — closing is complete iff no plugin throws.
-/

namespace QuickJSBridge.PluginClose

/-! ## Contexts -/

/-- A context's `functionRegistry`, its live handles in `refs`, and `releaseObjPtrPool`. -/
structure Tables where
  functionRegistry : List Nat
  refs : List Nat
  releaseObjPtrPool : List Nat
  -- the native references that Java holds
  owned : List Nat
  covered : ∀ x ∈ owned, x ∈ refs ∨ x ∈ releaseObjPtrPool

/-- `it.close()`: `_releasePtr`, and `refs.remove`. -/
def Tables.closeHandle (t : Tables) (it : Nat) : Tables where
  functionRegistry := t.functionRegistry
  refs := t.refs.filter (· ≠ it)
  releaseObjPtrPool := t.releaseObjPtrPool
  owned := t.owned.filter (· ≠ it)
  covered := by
    intro x hx
    simp only [List.mem_filter, decide_eq_true_eq] at hx ⊢
    exact (t.covered x hx.1).imp_left fun h => ⟨h, hx.2⟩

/-- One turn of the loop of `checkReleaseObjPtrPool`. -/
def Tables.releasePooled (t : Tables) : Tables where
  functionRegistry := t.functionRegistry
  refs := t.refs
  releaseObjPtrPool := t.releaseObjPtrPool.tail
  owned := t.owned.filter fun x => t.releaseObjPtrPool.head? ≠ some x
  covered := by
    intro x hx
    simp only [List.mem_filter, decide_eq_true_eq] at hx
    refine (t.covered x hx.1).imp_right fun h => ?_
    cases hpool : t.releaseObjPtrPool with
    | nil =>
      rw [hpool] at h
      exact absurd h List.not_mem_nil
    | cons y rest =>
      rw [hpool] at h hx
      exact (List.mem_cons.mp h).resolve_left fun heq => hx.2 (by rw [heq]; rfl)

def Tables.clearRegistry (t : Tables) : Tables := { t with functionRegistry := [] }

/-- `checkReleaseObjPtrPool` -/
def Tables.checkReleaseObjPtrPool (t : Tables) : Tables :=
  Tables.releasePooled^[t.releaseObjPtrPool.length] t

/-- From `functionRegistry.clear()` to `checkReleaseObjPtrPool()`. -/
def Tables.close (t : Tables) : Tables :=
  (t.refs.foldl Tables.closeHandle t.clearRegistry).checkReleaseObjPtrPool

structure Context where
  quickJS : Nat
  -- in the order in which the set is iterated
  plugins : List Nat
  nodup : plugins.Nodup
  tables : Tables
  released : Bool

inductive Call where
  -- `plugin.close(context)`
  | closePlugin (c p : Nat)
  -- `JSContext.super.close()`: `_releasePtr` of the global object
  | releaseGlobal (c : Nat)
  | releaseContext (c : Nat)
  | releaseRuntime (r : Nat)
  deriving DecidableEq

structure World where
  context : Nat → Context
  -- the values of `sContextMap`
  contextMap : List Nat
  calls : List Call
  -- the flag of each runtime
  released : Nat → Bool

/-- The plugins: what a call of `close` does to a context's tables, and whether it throws. -/
structure Plugins where
  effect : Nat → Nat → Tables → Tables
  throws : Nat → Nat → Bool

/-! ## Closing -/

def World.setContext (w : World) (c : Nat) (x : Context) : World :=
  { w with context := Function.update w.context c x }

@[simp] theorem context_setContext_self (w : World) (c : Nat) (x : Context) : (w.setContext c x).context c = x :=
  Function.update_self ..

@[simp] theorem context_setContext_of_ne (w : World) {c d : Nat} (x : Context) (h : d ≠ c) :
    (w.setContext c x).context d = w.context d := Function.update_of_ne h ..

variable (P : Plugins)

/-- `for (Plugin plugin : plugins) plugin.close(JSContext.this)`; the plugin that threw, if one did. -/
def closePlugins (c : Nat) : List Nat → World → World × Option Nat
  | [], w => (w, none)
  | plugin :: rest, w =>
    let x := w.context c
    let w := { w.setContext c { x with tables := P.effect plugin c x.tables } with
      calls := w.calls ++ [.closePlugin c plugin] }
    if P.throws plugin c then (w, some plugin) else closePlugins c rest w

/-- The statements after the loop. -/
def finishClose (c : Nat) (w : World) : World :=
  let x := w.context c
  { w.setContext c { x with plugins := [], nodup := List.nodup_nil, tables := x.tables.close, released := true } with
    contextMap := w.contextMap.filter (· ≠ c)
    calls := w.calls ++ [.releaseGlobal c, .releaseContext c] }

/-- The runnable of `JSContext.close`. -/
def closeContext (c : Nat) (w : World) : World × Option Nat :=
  if (w.context c).released then (w, none)
  else
    match closePlugins P c (w.context c).plugins w with
    | (w, some e) => (w, some e)
    | (w, none) => (finishClose c w, none)

/-- The loop of `QuickJS.close` over the array of contexts. -/
def closeContexts (r : Nat) : List Nat → World → World × Option Nat
  | [], w => (w, none)
  | c :: rest, w =>
    if (w.context c).quickJS = r then
      match closeContext P c w with
      | (w, some e) => (w, some e)
      | (w, none) => closeContexts r rest w
    else closeContexts r rest w

/-- The runnable of `QuickJS.close`; `values` is the array that is copied from the map. -/
def closeRuntime (r : Nat) (values : List Nat) (w : World) : World × Option Nat :=
  if w.released r then (w, none)
  else
    match closeContexts P r values w with
    | (w, some e) => (w, some e)
    | (w, none) =>
      ({ w with calls := w.calls ++ [.releaseRuntime r], released := Function.update w.released r true }, none)

/-- `postVoid(event, false)`: what the caller sees. -/
def postVoid (ownerThread : Bool) (ran : World × Option Nat) : World × Option Nat :=
  if ownerThread then ran else (ran.1, none)

/-! ## The property and the condition -/

/-- Between `w` and `w'` each plugin of the context was closed once, and the context was released. -/
structure ContextClosed (w w' : World) (c : Nat) : Prop where
  once : ∀ p ∈ (w.context c).plugins, w'.calls.count (.closePlugin c p) = w.calls.count (.closePlugin c p) + 1
  callbacks : (w'.context c).tables.functionRegistry = []
  handles : (w'.context c).tables.owned = []
  released : (w'.context c).released = true
  global : w'.calls.count (.releaseGlobal c) = w.calls.count (.releaseGlobal c) + 1
  freed : w'.calls.count (.releaseContext c) = w.calls.count (.releaseContext c) + 1
  unregistered : c ∉ w'.contextMap

structure RuntimeClosed (w w' : World) (r : Nat) : Prop where
  contexts : ∀ c ∈ w.contextMap, (w.context c).quickJS = r → ContextClosed w w' c
  freed : w'.calls.count (.releaseRuntime r) = w.calls.count (.releaseRuntime r) + 1
  released : w'.released r = true

/-- Closing any context of the runtime is complete, and so is closing the runtime, whatever the order of the
map's values, and on whichever thread `close` is called. -/
structure Survives (w : World) (r : Nat) : Prop where
  context : ∀ ownerThread, ∀ c ∈ w.contextMap, (w.context c).quickJS = r →
    ContextClosed w (postVoid ownerThread (closeContext P c w)).1 c
  runtime : ∀ ownerThread values, values.Perm w.contextMap →
    RuntimeClosed w (postVoid ownerThread (closeRuntime P r values w)).1 r

/-- No plugin of a context of the runtime throws. -/
def Quiet (w : World) (r : Nat) : Prop :=
  ∀ c ∈ w.contextMap, (w.context c).quickJS = r → ∀ p ∈ (w.context c).plugins, P.throws p c = false

/-- The runtime and the contexts in the map are open. -/
structure Open (w : World) (r : Nat) : Prop where
  runtime : w.released r = false
  contexts : ∀ c ∈ w.contextMap, (w.context c).released = false
  nodup : w.contextMap.Nodup

/-! ## Tables -/

/-- The handles that are left after a loop of `close`. -/
theorem foldl_closeHandle (handles : List Nat) (t : Tables) :
    (handles.foldl Tables.closeHandle t).functionRegistry = t.functionRegistry ∧
      ∀ x ∈ (handles.foldl Tables.closeHandle t).refs, x ∈ t.refs ∧ x ∉ handles := by
  induction handles generalizing t with
  | nil => exact ⟨rfl, fun x hx => ⟨hx, List.not_mem_nil⟩⟩
  | cons it handles ih =>
    obtain ⟨hregistry, hrefs⟩ := ih (t.closeHandle it)
    refine ⟨hregistry, fun x hx => ?_⟩
    obtain ⟨hmem, hnot⟩ := hrefs x hx
    obtain ⟨hmem, hne⟩ := List.mem_filter.mp hmem
    refine ⟨hmem, fun h => ?_⟩
    rcases List.mem_cons.mp h with heq | h
    · exact of_decide_eq_true hne heq
    · exact hnot h

theorem iterate_releasePooled (n : Nat) (t : Tables) :
    (Tables.releasePooled^[n] t).functionRegistry = t.functionRegistry ∧
      (Tables.releasePooled^[n] t).refs = t.refs ∧
      (Tables.releasePooled^[n] t).releaseObjPtrPool = t.releaseObjPtrPool.drop n := by
  induction n with
  | zero => exact ⟨rfl, rfl, rfl⟩
  | succ n ih =>
    rw [Function.iterate_succ_apply']
    refine ⟨ih.1, ih.2.1, ?_⟩
    show (Tables.releasePooled^[n] t).releaseObjPtrPool.tail = _
    rw [ih.2.2, List.tail_drop]

/-- After the statements behind the plugin loop no callback and no native reference is left. -/
theorem tables_close (t : Tables) : t.close.functionRegistry = [] ∧ t.close.owned = [] := by
  obtain ⟨hregistry, hrefs⟩ := foldl_closeHandle t.refs t.clearRegistry
  obtain ⟨hregistry', hrefs', hpool⟩ := iterate_releasePooled
    (t.refs.foldl Tables.closeHandle t.clearRegistry).releaseObjPtrPool.length
    (t.refs.foldl Tables.closeHandle t.clearRegistry)
  refine ⟨hregistry'.trans hregistry, ?_⟩
  rw [List.eq_nil_iff_forall_not_mem]
  intro x hx
  rcases t.close.covered x hx with hmem | hmem
  · have hleft := hrefs x (hrefs' ▸ hmem)
    exact hleft.2 hleft.1
  · have hempty : t.close.releaseObjPtrPool = [] := hpool.trans List.drop_length
    rw [hempty] at hmem
    exact List.not_mem_nil hmem

/-! ## The plugin loop -/

/-- What the plugin loop of context `c` leaves as it was. -/
structure SameBut (w w' : World) (c : Nat) : Prop where
  contextMap : w'.contextMap = w.contextMap
  released : w'.released = w.released
  others : ∀ d, d ≠ c → w'.context d = w.context d
  flag : (w'.context c).released = (w.context c).released

variable {P : Plugins}

theorem sameBut_closePlugins (c : Nat) (ps : List Nat) (w : World) : SameBut w (closePlugins P c ps w).1 c := by
  induction ps generalizing w with
  | nil => exact ⟨rfl, rfl, fun _ _ => rfl, rfl⟩
  | cons plugin rest ih =>
    rw [closePlugins]
    dsimp only
    split
    · exact ⟨rfl, rfl, fun d hd => context_setContext_of_ne w _ hd, by simp⟩
    · obtain ⟨hmap, hreleased, hrest, hc⟩ := ih _
      refine ⟨hmap, hreleased, fun d hd => (hrest d hd).trans (context_setContext_of_ne w _ hd), hc.trans ?_⟩
      simp

theorem closePlugins_quiet {c : Nat} {ps : List Nat} (h : ∀ p ∈ ps, P.throws p c = false) (w : World) :
    (closePlugins P c ps w).2 = none ∧
      (closePlugins P c ps w).1.calls = w.calls ++ ps.map (Call.closePlugin c) := by
  induction ps generalizing w with
  | nil => exact ⟨rfl, (List.append_nil _).symm⟩
  | cons plugin rest ih =>
    have hplugin : ¬ P.throws plugin c = true := by
      rw [h plugin List.mem_cons_self]
      exact Bool.false_ne_true
    obtain ⟨hnone, hcalls⟩ := ih (fun p hp => h p (List.mem_cons_of_mem plugin hp))
      { w.setContext c { w.context c with tables := P.effect plugin c (w.context c).tables } with
        calls := w.calls ++ [.closePlugin c plugin] }
    rw [closePlugins]
    dsimp only
    rw [if_neg hplugin]
    exact ⟨hnone, by rw [hcalls, List.append_assoc]; rfl⟩

theorem closePlugins_throws {c : Nat} {ps : List Nat} (h : ∃ p ∈ ps, P.throws p c = true) (w : World) :
    ∃ e, (closePlugins P c ps w).2 = some e := by
  induction ps generalizing w with
  | nil =>
    obtain ⟨p, hp, _⟩ := h
    exact absurd hp List.not_mem_nil
  | cons plugin rest ih =>
    rw [closePlugins]
    dsimp only
    split
    · exact ⟨plugin, rfl⟩
    · rename_i hplugin
      apply ih
      obtain ⟨p, hp, hthrows⟩ := h
      rcases List.mem_cons.mp hp with rfl | hp
      · exact absurd hthrows hplugin
      · exact ⟨p, hp, hthrows⟩

/-! ## Closing one context -/

/-- What closing other contexts leaves of a context as it was. -/
structure Untouched (w w' : World) (d : Nat) : Prop where
  context : w'.context d = w.context d
  plugins : ∀ p, w'.calls.count (.closePlugin d p) = w.calls.count (.closePlugin d p)
  global : w'.calls.count (.releaseGlobal d) = w.calls.count (.releaseGlobal d)
  freed : w'.calls.count (.releaseContext d) = w.calls.count (.releaseContext d)
  registered : d ∈ w'.contextMap → d ∈ w.contextMap

theorem Untouched.trans {w w' w'' : World} {d : Nat} (h : Untouched w w' d) (h' : Untouched w' w'' d) :
    Untouched w w'' d :=
  ⟨h'.context.trans h.context, fun p => (h'.plugins p).trans (h.plugins p), h'.global.trans h.global,
    h'.freed.trans h.freed, fun hd => h.registered (h'.registered hd)⟩

/-- The flags and calls of runtimes are as they were. -/
structure RuntimesUntouched (w w' : World) : Prop where
  released : w'.released = w.released
  freed : ∀ r, w'.calls.count (.releaseRuntime r) = w.calls.count (.releaseRuntime r)

/-- The calls that the close of a context makes if no plugin throws. -/
def closeCalls (c : Nat) (ps : List Nat) : List Call :=
  ps.map (Call.closePlugin c) ++ [.releaseGlobal c, .releaseContext c]

theorem count_map_closePlugin {c : Nat} {ps : List Nat} (hnodup : ps.Nodup) {p : Nat} (hp : p ∈ ps) :
    (ps.map (Call.closePlugin c)).count (.closePlugin c p) = 1 := by
  rw [List.count_map_of_injective _ _ fun _ _ h => (Call.closePlugin.inj h).2]
  exact List.count_eq_one_of_mem hnodup hp

theorem count_closeCalls {c : Nat} {ps : List Nat} (hnodup : ps.Nodup) :
    (∀ p ∈ ps, (closeCalls c ps).count (.closePlugin c p) = 1) ∧
      (closeCalls c ps).count (.releaseGlobal c) = 1 ∧ (closeCalls c ps).count (.releaseContext c) = 1 := by
  have hglobal : (ps.map (Call.closePlugin c)).count (.releaseGlobal c) = 0 :=
    List.count_eq_zero.mpr (by simp)
  have hfreed : (ps.map (Call.closePlugin c)).count (.releaseContext c) = 0 :=
    List.count_eq_zero.mpr (by simp)
  unfold closeCalls
  refine ⟨fun p hp => ?_, ?_, ?_⟩
  · rw [List.count_append, count_map_closePlugin hnodup hp]
    rfl
  · rw [List.count_append, hglobal]
    simp
  · rw [List.count_append, hfreed]
    simp

/-- A call that is about no context, or about another one, is not among them. -/
theorem count_closeCalls_of_ne {c : Nat} {ps : List Nat} {call : Call} (hplugin : ∀ p, call ≠ .closePlugin c p)
    (hglobal : call ≠ .releaseGlobal c) (hfreed : call ≠ .releaseContext c) :
    (closeCalls c ps).count call = 0 := by
  apply List.count_eq_zero.mpr
  intro hmem
  rcases List.mem_append.mp hmem with hmem | hmem
  · obtain ⟨p, _, heq⟩ := List.mem_map.mp hmem
    exact hplugin p heq.symm
  · rcases List.mem_cons.mp hmem with heq | hmem
    · exact hglobal heq
    · exact hfreed (List.mem_singleton.mp hmem)

/-- If no plugin throws, `JSContext.close` makes its calls and leaves the other contexts alone. -/
theorem closeContext_quiet {c : Nat} {w : World} (hopen : (w.context c).released = false)
    (hquiet : ∀ p ∈ (w.context c).plugins, P.throws p c = false) :
    ∃ w', closeContext P c w = (w', none) ∧ ContextClosed w w' c ∧ (∀ d, d ≠ c → Untouched w w' d) ∧
      RuntimesUntouched w w' := by
  obtain ⟨hnone, hcalls⟩ := closePlugins_quiet hquiet w
  have hsame := sameBut_closePlugins (P := P) c (w.context c).plugins w
  have hrun : closeContext P c w = (finishClose c (closePlugins P c (w.context c).plugins w).1, none) := by
    unfold closeContext
    rw [if_neg (by rw [hopen]; exact Bool.false_ne_true)]
    generalize closePlugins P c (w.context c).plugins w = ran at hnone
    obtain ⟨w₁, e⟩ := ran
    cases hnone
    rfl
  generalize (closePlugins P c (w.context c).plugins w).1 = w₁ at hcalls hsame hrun
  have hmade : (finishClose c w₁).calls = w.calls ++ closeCalls c (w.context c).plugins := by
    show w₁.calls ++ _ = _
    rw [hcalls, List.append_assoc]
    rfl
  have hcount : ∀ call, (finishClose c w₁).calls.count call =
      w.calls.count call + (closeCalls c (w.context c).plugins).count call := by
    intro call
    rw [hmade, List.count_append]
  obtain ⟨hplugins, hglobal, hfreed⟩ := count_closeCalls (c := c) (w.context c).nodup
  have hclosed : (finishClose c w₁).context c =
      { w₁.context c with
        plugins := [], nodup := List.nodup_nil, tables := (w₁.context c).tables.close, released := true } :=
    context_setContext_self w₁ c _
  refine ⟨finishClose c w₁, hrun, ⟨?_, ?_, ?_, ?_, ?_, ?_, ?_⟩, ?_, ⟨hsame.released, ?_⟩⟩
  · intro p hp
    rw [hcount, hplugins p hp]
  · rw [hclosed]
    exact (tables_close _).1
  · rw [hclosed]
    exact (tables_close _).2
  · rw [hclosed]
  · rw [hcount, hglobal]
  · rw [hcount, hfreed]
  · show c ∉ w₁.contextMap.filter (· ≠ c)
    simp
  · intro d hd
    have hother : ∀ call, (∀ p, call ≠ .closePlugin c p) → call ≠ .releaseGlobal c → call ≠ .releaseContext c →
        (finishClose c w₁).calls.count call = w.calls.count call := by
      intro call h h' h''
      rw [hcount, count_closeCalls_of_ne h h' h'']
      rfl
    refine ⟨(context_setContext_of_ne w₁ _ hd).trans (hsame.others d hd), fun p => ?_, ?_, ?_, fun hmem => ?_⟩
    · exact hother _ (fun _ h => hd (Call.closePlugin.inj h).1) (by simp) (by simp)
    · exact hother _ (by simp) (fun h => hd (Call.releaseGlobal.inj h)) (by simp)
    · exact hother _ (by simp) (by simp) (fun h => hd (Call.releaseContext.inj h))
    · rw [← hsame.contextMap]
      exact (List.mem_filter.mp hmem).1
  · intro r
    rw [hcount, count_closeCalls_of_ne (by simp) (by simp) (by simp)]
    rfl

/-- If a plugin throws, the context is not released. -/
theorem closeContext_throws {c : Nat} {w : World} (hopen : (w.context c).released = false)
    (hthrows : ∃ p ∈ (w.context c).plugins, P.throws p c = true) :
    ((closeContext P c w).1.context c).released = false := by
  obtain ⟨e, he⟩ := closePlugins_throws hthrows w
  have hsame := sameBut_closePlugins (P := P) c (w.context c).plugins w
  unfold closeContext
  rw [if_neg (by rw [hopen]; exact Bool.false_ne_true)]
  generalize closePlugins P c (w.context c).plugins w = ran at he hsame
  obtain ⟨w₁, e'⟩ := ran
  cases he
  exact hsame.flag.trans hopen

/-! ## Closing the runtime -/

theorem ContextClosed.of_untouched {w w₁ w' : World} {c : Nat} (h : ContextClosed w w₁ c)
    (hlater : Untouched w₁ w' c) : ContextClosed w w' c where
  once := fun p hp => (hlater.plugins p).trans (h.once p hp)
  callbacks := by
    rw [hlater.context]
    exact h.callbacks
  handles := by
    rw [hlater.context]
    exact h.handles
  released := by
    rw [hlater.context]
    exact h.released
  global := hlater.global.trans h.global
  freed := hlater.freed.trans h.freed
  unregistered := fun hmem => h.unregistered (hlater.registered hmem)

theorem ContextClosed.after_untouched {w w₁ w' : World} {c : Nat} (hearlier : Untouched w w₁ c)
    (h : ContextClosed w₁ w' c) : ContextClosed w w' c where
  once := by
    intro p hp
    rw [← hearlier.context] at hp
    rw [h.once p hp, hearlier.plugins p]
  callbacks := h.callbacks
  handles := h.handles
  released := h.released
  global := by rw [h.global, hearlier.global]
  freed := by rw [h.freed, hearlier.freed]
  unregistered := h.unregistered

/-- A context of the runtime `r` that is open and whose plugins do not throw. -/
structure Closable (P : Plugins) (w : World) (c : Nat) : Prop where
  isOpen : (w.context c).released = false
  quiet : ∀ p ∈ (w.context c).plugins, P.throws p c = false

theorem Closable.of_untouched {w w' : World} {c : Nat} (h : Closable P w c) (hsame : Untouched w w' c) :
    Closable P w' c where
  isOpen := by rw [hsame.context]; exact h.isOpen
  quiet := by rw [hsame.context]; exact h.quiet

/-- The loop of `QuickJS.close` over closable contexts closes them all, each once. -/
theorem closeContexts_quiet {r : Nat} {values : List Nat} (hnodup : values.Nodup) {w : World}
    (hclosable : ∀ c ∈ values, (w.context c).quickJS = r → Closable P w c) :
    ∃ w', closeContexts P r values w = (w', none) ∧
      (∀ c ∈ values, (w.context c).quickJS = r → ContextClosed w w' c) ∧
      (∀ d, d ∉ values ∨ (w.context d).quickJS ≠ r → Untouched w w' d) ∧ RuntimesUntouched w w' := by
  induction values generalizing w with
  | nil =>
    refine ⟨w, rfl, fun c hc => absurd hc List.not_mem_nil, fun d _ => ?_, rfl, fun _ => rfl⟩
    exact ⟨rfl, fun _ => rfl, rfl, rfl, id⟩
  | cons c rest ih =>
    obtain ⟨hc, hrest⟩ := List.nodup_cons.mp hnodup
    rw [closeContexts]
    by_cases hr : (w.context c).quickJS = r
    · have hhead := hclosable c List.mem_cons_self hr
      obtain ⟨w₁, hrun, hclosed, hothers, hruntimes⟩ := closeContext_quiet hhead.isOpen hhead.quiet
      have hne : ∀ d ∈ rest, d ≠ c := fun d hd heq => hc (heq ▸ hd)
      have hnext : ∀ d ∈ rest, (w₁.context d).quickJS = r → Closable P w₁ d := by
        intro d hd hdr
        have hsame := hothers d (hne d hd)
        rw [hsame.context] at hdr
        exact (hclosable d (List.mem_cons_of_mem c hd) hdr).of_untouched hsame
      obtain ⟨w', hrun', hclosed', hothers', hruntimes'⟩ := ih hrest hnext
      rw [if_pos hr, hrun]
      refine ⟨w', hrun', ?_, ?_, ?_⟩
      · intro d hd hdr
        rcases List.mem_cons.mp hd with rfl | hd
        · exact hclosed.of_untouched (hothers' d (Or.inl hc))
        · have hsame := hothers d (hne d hd)
          have hdr' : (w₁.context d).quickJS = r := by rw [hsame.context]; exact hdr
          exact (hclosed' d hd hdr').after_untouched hsame
      · intro d hd
        have hdc : d ≠ c := by
          rintro rfl
          rcases hd with hd | hd
          · exact hd List.mem_cons_self
          · exact hd hr
        have hsame := hothers d hdc
        apply hsame.trans
        apply hothers'
        rcases hd with hd | hd
        · exact Or.inl fun hmem => hd (List.mem_cons_of_mem c hmem)
        · rw [hsame.context]
          exact Or.inr hd
      · exact ⟨hruntimes'.released.trans hruntimes.released,
          fun q => (hruntimes'.freed q).trans (hruntimes.freed q)⟩
    · obtain ⟨w', hrun', hclosed', hothers', hruntimes'⟩ :=
        ih hrest fun d hd => hclosable d (List.mem_cons_of_mem c hd)
      rw [if_neg hr]
      refine ⟨w', hrun', ?_, ?_, hruntimes'⟩
      · intro d hd hdr
        rcases List.mem_cons.mp hd with rfl | hd
        · exact absurd hdr hr
        · exact hclosed' d hd hdr
      · intro d hd
        apply hothers'
        exact hd.imp_left fun hnot hmem => hnot (List.mem_cons_of_mem c hmem)

theorem postVoid_fst (ownerThread : Bool) (ran : World × Option Nat) : (postVoid ownerThread ran).1 = ran.1 := by
  unfold postVoid
  split <;> rfl

/-- If no plugin throws, `QuickJS.close` closes the runtime and its contexts. -/
theorem closeRuntime_quiet {w : World} {r : Nat} (hopen : Open w r) (hquiet : Quiet P w r) {values : List Nat}
    (hvalues : values.Perm w.contextMap) : RuntimeClosed w (closeRuntime P r values w).1 r := by
  have hclosable : ∀ c ∈ values, (w.context c).quickJS = r → Closable P w c := by
    intro c hc hr
    have hmem := hvalues.mem_iff.mp hc
    exact ⟨hopen.contexts c hmem, hquiet c hmem hr⟩
  obtain ⟨w₁, hrun, hclosed, _, hruntimes⟩ := closeContexts_quiet (hvalues.nodup_iff.mpr hopen.nodup) hclosable
  unfold closeRuntime
  rw [if_neg (by rw [hopen.runtime]; exact Bool.false_ne_true), hrun]
  have hcount : ∀ call, call ≠ .releaseRuntime r →
      (w₁.calls ++ [Call.releaseRuntime r]).count call = w₁.calls.count call := by
    intro call hne
    have hzero : [Call.releaseRuntime r].count call = 0 := by
      apply List.count_eq_zero.mpr
      intro hmem
      exact hne (List.mem_singleton.mp hmem)
    rw [List.count_append, hzero]
    rfl
  refine ⟨fun c hc hr => ?_, ?_, Function.update_self ..⟩
  · apply (hclosed c (hvalues.mem_iff.mpr hc) hr).of_untouched
    exact ⟨rfl, fun p => hcount _ (by simp), hcount _ (by simp), hcount _ (by simp), id⟩
  · show (w₁.calls ++ [Call.releaseRuntime r]).count _ = _
    rw [List.count_append, hruntimes.freed r]
    simp

/-- Context 0 of runtime 0, with the plugins 1 and 2, a handle and a pooled pointer. -/
def sampleWorld : World where
  context := fun _ => ⟨0, [1, 2], by decide, ⟨[5], [10], [11], [10, 11], by decide⟩, false⟩
  contextMap := [0]
  calls := []
  released := fun _ => false

theorem open_sampleWorld : Open sampleWorld 0 := ⟨rfl, fun _ _ => rfl, by decide⟩

end QuickJSBridge.PluginClose
