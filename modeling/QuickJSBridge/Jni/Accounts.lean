import Mathlib.Tactic.Abel
import QuickJSBridge.Jni.Entries

/-!
# The accounts of the native functions

Each function is checked piece by piece: what it needs to own when it starts, and what it owns when it is
through.

* `net_*`, `solvent_*` — one pair of facts for each piece;
* `toJObject_handle_iff` — the code of `To_JObject` makes a handle where the function returns one;
* `settled_toJObject_iff` — a converted value is settled iff it is `Kept`;
* `Entry.solvent_code` — an entry that is `Proper` spends only what it owns;
* `Entry.net_code_le_zero_iff` — an entry leaves nothing over iff it is `LeakFree`.
-/

namespace QuickJSBridge.Native

open Ownership

variable {L : Layout}

/-! ## The pieces -/

section Pieces

variable {B : List (Addr L)} {o : Amount (Addr L)}

@[simp] theorem net_getProperty_deref (obj result : JSVal L) :
    net (getProperty .deref obj result) = amount result.ref? := by
  simp [getProperty]

@[simp] theorem net_getProperty_read (obj result : JSVal L) :
    net (getProperty .read obj result) = amount result.ref? := by
  simp [getProperty]

@[simp] theorem solvent_getProperty_deref (obj result : JSVal L) :
    Solvent B o (getProperty .deref obj result) := by
  simp [getProperty, solvent_append]

theorem solvent_getProperty_read {obj : JSVal L} (result : JSVal L)
    (h : Solvent B o (each .read obj.ref?)) : Solvent B o (getProperty .read obj result) :=
  solvent_append.mpr ⟨h, solvent_acquire _⟩

@[simp] theorem net_toCStringCode (v : JSVal L) (text : Option (Addr L)) :
    net (toCStringCode v text) = amount text := by
  simp [toCStringCode]

theorem solvent_toCStringCode {v : JSVal L} (text : Option (Addr L)) (h : amount v.ref? ≤ o) :
    Solvent B o (toCStringCode v text) :=
  solvent_append.mpr ⟨solvent_read h, solvent_acquire _⟩

@[simp] theorem net_toJavaObject (v : JSVal L) : net (toJavaObject v) = -amount v.ref? := by
  simp [toJavaObject]

theorem solvent_toJavaObject {v : JSVal L} (h : amount v.ref? ≤ o) :
    Solvent B o (toJavaObject v) := by
  refine solvent_append.mpr ⟨solvent_read h, solvent_wrap ?_⟩
  rw [net_each_read, add_zero]
  exact h

@[simp] theorem net_jobjectToJSValueCode (value : JavaValue) (newString : Option (Addr L)) :
    net (jobjectToJSValueCode L value newString) = amount (jobjectRef L value newString) := by
  cases value <;> simp [jobjectToJSValueCode]

@[simp] theorem solvent_jobjectToJSValueCode (value : JavaValue) (newString : Option (Addr L)) :
    Solvent B o (jobjectToJSValueCode L value newString) := by
  cases value <;> simp [jobjectToJSValueCode]

/-! ## `To_JObject` -/

theorem net_getObjectType (k : Conversion L) (v : JSVal L) : net (k.getObjectType v) = 0 := by
  unfold Conversion.getObjectType
  split
  · exact net_each_read _
  · exact net_nil

theorem net_toJObject (k : Conversion L) (v : JSVal L) :
    net (k.toJObject v) =
      if k.type v = typeString then amount k.text
      else if k.type v ∈ handleTypes then -amount v.ref? else 0 := by
  have hdouble : typeDouble ≠ typeString ∧ typeDouble ∉ handleTypes := by decide
  rw [Conversion.toJObject, net_append, net_getObjectType, zero_add]
  by_cases h : k.type v = typeDouble
  · rw [if_pos h, h, if_neg hdouble.1, if_neg hdouble.2, net_each_read]
  · rw [if_neg h]
    split
    · exact net_toCStringCode v k.text
    · split
      · exact net_toJavaObject v
      · rfl

theorem solvent_toJObject (k : Conversion L) {v : JSVal L} (h : amount v.ref? ≤ o) :
    Solvent B o (k.toJObject v) := by
  refine solvent_append.mpr ⟨?_, ?_⟩
  · unfold Conversion.getObjectType
    split
    · exact solvent_read h
    · trivial
  · rw [net_getObjectType, add_zero]
    split
    · exact solvent_read h
    · split
      · exact solvent_toCStringCode k.text h
      · split
        · exact solvent_toJavaObject h
        · trivial

/-- What a value that is owned and then converted leaves over. -/
theorem leftover_toJObject_nonneg (k : Conversion L) (v : JSVal L) :
    0 ≤ amount v.ref? + net (k.toJObject v) := by
  rw [net_toJObject]
  split
  · exact add_nonneg (amount_nonneg _) (amount_nonneg _)
  · split
    · rw [add_neg_cancel]
    · exact (amount_nonneg _).trans_eq (add_zero _).symm

theorem getObjectType_object (E : Engine L) (slot : Slot) (p : Addr L) :
    (E.getObjectType slot (.object p)).1 ∈ handleTypes := by
  unfold Engine.getObjectType
  split
  split
  · exact List.mem_cons_self
  · split
    · exact List.mem_cons_of_mem _ (List.mem_cons_of_mem _ List.mem_cons_self)
    · exact List.mem_cons_of_mem _ List.mem_cons_self

/-- The codes that matter for a value that is neither undefined nor null. -/
theorem type_of_ref {k : Conversion L} {v : JSVal L} (hv : v.ref?.isSome) :
    k.type v ∈ handleTypes ↔
      k.expected ∈ handleTypes ∨ (k.expected = typeUnknown ∧ v.tag = -1) := by
  have hunknown : typeUnknown ∉ handleTypes := by decide
  have htype : k.type v =
      if k.expected = typeUnknown then (k.engine.getObjectType k.slot v).1 else k.expected := by
    cases v with
    | undefined | null => cases hv
    | _ => rfl
  rw [htype]
  by_cases hk : k.expected = typeUnknown
  · rw [if_pos hk, hk]
    simp only [hunknown, false_or, true_and]
    cases v with
    | undefined => cases hv
    | object p => exact iff_of_true (getObjectType_object k.engine k.slot p) rfl
    | _ =>
      simp [Engine.getObjectType, Engine.isArray, Engine.isFunction, JSVal.tag, handleTypes, typeJSArray,
        typeJSObject, typeJSFunction, typeUndefined, typeString, typeInteger, typeDouble, typeBoolean, typeUnknown,
        typeNull]
  · simp [hk]

theorem type_of_scalar {k : Conversion L} {v : JSVal L} (hv : v.ref? = none) :
    k.type v = typeString ↔ k.expected = typeString ∧ v ≠ .undefined ∧ v ≠ .null := by
  cases v with
  | bigDecimal _ | bigInt _ | bigFloat _ | symbol _ | string _ | object _ => cases hv
  | undefined | null => simp [Conversion.type, typeUndefined, typeNull, typeString]
  | _ =>
    by_cases hk : k.expected = typeUnknown
    · simp [Conversion.type, hk, Engine.getObjectType, Engine.isArray, Engine.isFunction, typeString,
        typeInteger, typeDouble, typeBoolean, typeUnknown]
    · simp [Conversion.type, hk]

theorem javaString_ne_handle (text : Option Text) (h : JavaHandle) :
    Engine.javaString text ≠ some (.handle h) := by
  cases text with
  | none => exact fun hh => by cases hh
  | some s =>
    intro hh
    obtain ⟨s', _, hs'⟩ := Option.map_eq_some_iff.mp hh
    cases hs'

/-- Of the branches of `To_JObject` one gives a handle. -/
theorem branches_handle_iff {type : TypeCode} {null int double bool other : Option JavaValue × Slot}
    {text : Option JavaValue} {slot : Slot} {handle : JavaHandle × Slot} (hnull : ∀ h, null.1 ≠ some (.handle h))
    (hint : ∀ h, int.1 ≠ some (.handle h)) (hdouble : ∀ h, double.1 ≠ some (.handle h))
    (hbool : ∀ h, bool.1 ≠ some (.handle h)) (htext : ∀ h, text ≠ some (.handle h))
    (hother : ∀ h, other.1 ≠ some (.handle h)) :
    (∃ h, (if type = typeNull then null else if type = typeInteger then int
      else if type = typeDouble then double else if type = typeBoolean then bool
      else if type = typeString then (text, slot)
      else if type = typeJSArray ∨ type = typeJSObject ∨ type = typeJSFunction ∨ type = typeUndefined then
        (some (.handle handle.1), handle.2)
      else other).1 = some (.handle h)) ↔ type ∈ handleTypes := by
  have hmem : type ∈ handleTypes ↔
      type = typeJSArray ∨ type = typeJSObject ∨ type = typeJSFunction ∨ type = typeUndefined := by
    simp [handleTypes]
  have hscalar : ∀ x ∈ [typeNull, typeInteger, typeDouble, typeBoolean, typeString], x ∉ handleTypes := by
    decide
  rw [hmem]
  simp only [List.forall_mem_cons] at hscalar
  obtain ⟨h0, h1, h2, h3, h4, _⟩ := hscalar
  split
  · rename_i h
    exact iff_of_false (fun ⟨j, hj⟩ => hnull j hj) (hmem.not.mp (h ▸ h0))
  split
  · rename_i h
    exact iff_of_false (fun ⟨j, hj⟩ => hint j hj) (hmem.not.mp (h ▸ h1))
  split
  · rename_i h
    exact iff_of_false (fun ⟨j, hj⟩ => hdouble j hj) (hmem.not.mp (h ▸ h2))
  split
  · rename_i h
    exact iff_of_false (fun ⟨j, hj⟩ => hbool j hj) (hmem.not.mp (h ▸ h3))
  split
  · rename_i h
    exact iff_of_false (fun ⟨j, hj⟩ => htext j hj) (hmem.not.mp (h ▸ h4))
  split
  · exact iff_of_true ⟨_, rfl⟩ ‹_›
  · exact iff_of_false (fun ⟨j, hj⟩ => hother j hj) ‹_›

/-- `To_JObject` returns a handle exactly where its code makes one. -/
theorem toJObject_handle_iff (k : Conversion L) (v : JSVal L) :
    (∃ h, (k.engine.toJObject k.expected k.slot v).1 = some (.handle h)) ↔
      k.type v ∈ handleTypes := by
  have hfst : (if k.expected = typeUnknown then (k.engine.getObjectType k.slot v).1 else k.expected) =
      (if k.expected = typeUnknown then k.engine.getObjectType k.slot v
        else (k.expected, k.slot)).1 := by
    split <;> rfl
  cases v with
  | undefined =>
    unfold Engine.toJObject
    exact iff_of_true ⟨_, rfl⟩ (by simp [Conversion.type, handleTypes])
  | null =>
    unfold Engine.toJObject
    exact iff_of_false (fun ⟨h, hh⟩ => by cases hh)
      (by simp [Conversion.type, handleTypes, typeNull, typeJSArray, typeJSObject, typeJSFunction,
        typeUndefined])
  | _ =>
    unfold Engine.toJObject Conversion.type
    simp only [hfst]
    refine branches_handle_iff ?_ ?_ ?_ ?_ (javaString_ne_handle _) ?_
    all_goals
      intro h hh
      cases hh

theorem settled_toJObject_iff (k : Conversion L) (v : JSVal L) :
    amount v.ref? + net (k.toJObject v) ≤ 0 ↔ k.Kept v := by
  have hstring : typeString ∉ handleTypes := by decide
  rw [net_toJObject]
  cases hv : v.ref? with
  | some p =>
    have htype := type_of_ref (k := k) (v := v) (by rw [hv]; rfl)
    have hkept : k.Kept v ↔ k.type v ∈ handleTypes := by
      rw [htype, Conversion.Kept, hv]
    rw [hkept]
    have hpos : ¬ amount (some p) ≤ 0 := fun h => by cases amount_le_zero_iff.mp h
    by_cases hs : k.type v = typeString
    · rw [if_pos hs, hs]
      refine iff_of_false (fun h => ?_) hstring
      exact hpos ((le_add_of_nonneg_right (amount_nonneg k.text)).trans h)
    · rw [if_neg hs]
      by_cases hh : k.type v ∈ handleTypes
      · rw [if_pos hh, add_neg_cancel]
        exact iff_of_true le_rfl hh
      · rw [if_neg hh, add_zero]
        exact iff_of_false hpos hh
  | none =>
    have hkept : k.Kept v ↔ (k.type v = typeString → k.text = none) := by
      rw [type_of_scalar hv, Conversion.Kept, hv]
      tauto
    rw [hkept, amount_none, zero_add]
    by_cases hs : k.type v = typeString
    · rw [if_pos hs, amount_le_zero_iff]
      exact ⟨fun h _ => h, fun h => h hs⟩
    · rw [if_neg hs]
      refine iff_of_true ?_ fun h => absurd h hs
      split
      · exact neg_zero.le
      · exact le_rfl

/-! ## Calls of functions -/

namespace Call

variable (c : Call L) {func : JSVal L}

theorem net_loadArgv : net c.loadArgv = amount c.length + amounts c.argv := by
  unfold loadArgv argv length
  cases c.parameters with
  | none => rfl
  | some p =>
    rw [net_append, net_getProperty_deref, net_flatMap]
    simp [amounts, Function.comp_def]

theorem solvent_loadArgv : Solvent B o c.loadArgv := by
  unfold loadArgv
  cases c.parameters with
  | none => trivial
  | some p =>
    refine solvent_append.mpr ⟨solvent_getProperty_deref _ _, solvent_flatMap (fun v _ => ?_) fun v _ => ?_⟩
    · rw [net_getProperty_deref]
      exact amount_nonneg _
    · exact solvent_getProperty_deref _ _

theorem net_passThis : net c.passThis = 0 := by
  unfold passThis
  split
  · exact net_nil
  · exact net_each_deref _

theorem solvent_passThis : Solvent B o c.passThis := by
  unfold passThis
  split
  · trivial
  · exact solvent_deref _

/-- `executeFunction` uses `func` up; what it leaves over is the result, and a length in the heap. -/
theorem net_executeFunction : net (c.executeFunction func) =
    amount c.length + amount c.result.ref? - amount func.ref? := by
  unfold executeFunction
  simp only [net_append, net_loadArgv, net_passThis, net_flatMap_read, net_each_acquire, net_each_read,
    net_each_drop, net_flatMap_drop]
  abel

theorem solvent_executeFunction (hfunc : amount func.ref? ≤ o) (ho : 0 ≤ o) :
    Solvent B o (c.executeFunction func) := by
  have hlength := amount_nonneg c.length
  have hargv := amounts_nonneg c.argv
  have hglobal := amount_nonneg (some c.global)
  have hresult := amount_nonneg c.result.ref?
  unfold executeFunction
  simp only [solvent_append, net_append, net_loadArgv, net_passThis, net_flatMap_read, net_each_acquire,
    net_each_read, net_each_drop, solvent_loadArgv, solvent_acquire, solvent_passThis, true_and, and_true]
  refine ⟨⟨⟨⟨solvent_read ?_, solvent_flatMap_read ?_⟩, solvent_drop ?_⟩, solvent_drop ?_⟩,
    solvent_flatMap_drop ?_⟩
  all_goals
    intro d
    have hf : amount func.ref? d ≤ o d := hfunc d
    have hod : 0 ≤ o d := ho d
    have h1 : 0 ≤ amount c.length d := hlength d
    have h2 : 0 ≤ amounts c.argv d := hargv d
    have h3 : 0 ≤ amount (some c.global) d := hglobal d
    have h4 : 0 ≤ amount c.result.ref? d := hresult d
    simp only [Pi.add_apply, Pi.neg_apply, Pi.zero_apply]
    omega

end Call

/-! ## Calls from JS -/

namespace Trampoline

variable (t : Trampoline L)

theorem mem_borrowed_this : ∀ p ∈ t.this_val.ref?, p ∈ t.borrowed :=
  fun _ hp => List.mem_append_left _ (Option.mem_toList.mpr hp)

theorem mem_borrowed_argv {it : JSVal L} (hit : it ∈ t.argv) : ∀ p ∈ it.ref?, p ∈ t.borrowed :=
  fun _ hp => List.mem_append_right _ (List.mem_flatMap.mpr ⟨it, hit, Option.mem_toList.mpr hp⟩)

theorem net_fillArgs : net t.fillArgs = 0 := by
  unfold fillArgs
  rw [net_flatMap]
  simp

theorem solvent_fillArgs (hargs : amount t.args.ref? ≤ o) (ho : 0 ≤ o) :
    Solvent t.borrowed o t.fillArgs := by
  refine solvent_flatMap (fun it _ => ?_) fun it hit => ?_
  · simp
  · rw [solvent_append, solvent_append, net_append, net_each_dup, net_each_read, add_zero]
    have hdup : amount it.ref? ≤ o + amount it.ref? := le_add_of_nonneg_left ho
    exact ⟨⟨solvent_dup_borrowed (t.mem_borrowed_argv hit),
      solvent_read (hargs.trans (le_add_of_nonneg_right (amount_nonneg _)))⟩, solvent_give hdup⟩

/-- The handle for the array takes the reference to it. That for `this` takes a new one, unless `this` is
the global object. -/
theorem net_invoke : net t.invoke =
    (if t.thisIsGlobal then -amount t.this_val.ref? else 0) - amount t.args.ref? := by
  unfold invoke
  cases t.thisIsGlobal with
  | true =>
    simp only [if_true, net_append, net_nil, net_toJavaObject, net_each_acquire, net_each_drop,
      net_jobjectToJSValueCode, net_each_give]
    abel
  | false =>
    simp only [if_neg Bool.false_ne_true, net_append, net_each_dup, net_toJavaObject, net_each_acquire,
      net_each_drop, net_jobjectToJSValueCode, net_each_give]
    abel

theorem solvent_invoke (hthis : t.thisIsGlobal = false) (hargs : amount t.args.ref? ≤ o) (ho : 0 ≤ o) :
    Solvent t.borrowed o t.invoke := by
  have hpthis := amount_nonneg t.this_val.ref?
  have hpargs := amount_nonneg t.args.ref?
  have hglobal := amount_nonneg (some t.global)
  have hresult := amount_nonneg (jobjectRef L t.result t.newString)
  unfold invoke
  rw [hthis, if_neg Bool.false_ne_true]
  simp only [solvent_append, net_append, net_each_dup, net_toJavaObject, net_each_acquire, net_each_drop,
    net_jobjectToJSValueCode, solvent_acquire, solvent_jobjectToJSValueCode, and_true]
  refine ⟨⟨⟨⟨solvent_dup_borrowed t.mem_borrowed_this, solvent_toJavaObject ?_⟩, solvent_toJavaObject ?_⟩,
    solvent_drop ?_⟩, solvent_give ?_⟩
  all_goals
    intro d
    have ha : amount t.args.ref? d ≤ o d := hargs d
    have hod : 0 ≤ o d := ho d
    have h1 : 0 ≤ amount t.this_val.ref? d := hpthis d
    have h2 : 0 ≤ amount t.args.ref? d := hpargs d
    have h3 : 0 ≤ amount (some t.global) d := hglobal d
    have h4 : 0 ≤ amount (jobjectRef L t.result t.newString) d := hresult d
    simp only [Pi.add_apply, Pi.neg_apply]
    omega

theorem net_callJavaCallback : net t.callJavaCallback =
    if t.thisIsGlobal then -amount t.this_val.ref? else 0 := by
  simp only [callJavaCallback, net_append, net_each_acquire, net_fillArgs, net_invoke]
  abel

theorem solvent_callJavaCallback (hthis : t.thisIsGlobal = false) :
    Solvent t.borrowed 0 t.callJavaCallback := by
  have hargs := amount_nonneg t.args.ref?
  simp only [callJavaCallback, solvent_append, net_append, net_each_acquire, net_fillArgs, add_zero,
    zero_add, solvent_acquire, true_and]
  exact ⟨t.solvent_fillArgs le_rfl hargs, t.solvent_invoke hthis le_rfl hargs⟩

theorem net_js_worker_constructor (id : JSVal L) : net (t.js_worker_constructor id) =
    amount id.ref? + if t.thisIsGlobal then -amount t.this_val.ref? else 0 := by
  simp only [js_worker_constructor, net_append, net_each_acquire, net_getProperty_read, net_fillArgs,
    net_invoke]
  abel

theorem solvent_js_worker_constructor (id : JSVal L) (hthis : t.thisIsGlobal = false) :
    Solvent t.borrowed 0 (t.js_worker_constructor id) := by
  have hargs : amount t.args.ref? ≤ amount t.args.ref? + amount id.ref? :=
    le_add_of_nonneg_right (amount_nonneg _)
  have howned := (amount_nonneg t.args.ref?).trans hargs
  simp only [js_worker_constructor, solvent_append, net_append, net_each_acquire, net_getProperty_read,
    net_fillArgs, add_zero, zero_add, solvent_acquire, true_and]
  exact ⟨⟨solvent_getProperty_read _ (solvent_read_borrowed t.mem_borrowed_this),
    t.solvent_fillArgs hargs howned⟩, t.solvent_invoke hthis hargs howned⟩

end Trampoline

/-! ## Reading an exception -/

namespace ErrorRead

/-- The loop frees every value of `stackValue` and none of their C strings. -/
theorem net_stackLoop (stack : List (JSVal L × Option (Addr L))) :
    net (stackLoop stack) = amounts (stackTexts stack) - amount (stackValue stack).ref? := by
  induction stack with
  | nil => rfl
  | cons x rest ih =>
    obtain ⟨v, text⟩ := x
    by_cases hv : v = .undefined
    · simp [stackLoop, stackTexts, stackValue, hv, JSVal.ref?, amounts]
    · have htexts : amounts (stackTexts ((v, text) :: rest)) = amount text + amounts (stackTexts rest) := by
        simp [stackTexts, hv, amounts]
      rw [stackLoop, if_neg hv, htexts]
      simp only [net_append, net_toCStringCode, net_each_drop, net_getProperty_deref, ih, stackValue]
      abel

theorem solvent_stackLoop {stack : List (JSVal L × Option (Addr L))}
    (hvalue : amount (stackValue stack).ref? ≤ o) (ho : 0 ≤ o) : Solvent B o (stackLoop stack) := by
  induction stack generalizing o with
  | nil => trivial
  | cons x rest ih =>
    obtain ⟨v, text⟩ := x
    have hvalue : amount v.ref? ≤ o := hvalue
    have htext := amount_nonneg text
    have hnext := amount_nonneg (stackValue rest).ref?
    rw [stackLoop]
    split
    · trivial
    · simp only [solvent_append, net_append, net_toCStringCode, net_each_drop, net_getProperty_deref,
        solvent_getProperty_deref, and_true]
      refine ⟨⟨solvent_toCStringCode text hvalue, solvent_drop ?_⟩, ih ?_ ?_⟩
      all_goals
        intro d
        have hv : amount v.ref? d ≤ o d := hvalue d
        have h1 : 0 ≤ amount text d := htext d
        have h2 : 0 ≤ amount (stackValue rest).ref? d := hnext d
        simp only [Pi.add_apply, Pi.neg_apply, Pi.zero_apply]
        omega

variable (x : ErrorRead L)

/-- Of an Error, its name and its text stay, and every C string; of anything else, the value itself. -/
def leftover : Amount (Addr L) :=
  if x.isError then
    amount x.nameValue.ref? + amount x.titleValue.ref? + amount x.nameText + amount x.titleText +
      amounts (stackTexts x.stack)
  else amount x.exc.ref?

theorem net_getException : net x.getException = x.leftover := by
  unfold getException leftover
  cases x.isError with
  | true =>
    simp only [if_true, net_append, net_each_acquire, net_getProperty_read, net_each_read, net_each_drop,
      net_toCStringCode, net_stackLoop]
    abel
  | false => simp

theorem solvent_getException : Solvent B 0 x.getException := by
  have hexc := amount_nonneg x.exc.ref?
  have hfunc := amount_nonneg x.func.ref?
  have hname := amount_nonneg x.nameValue.ref?
  have hstack := amount_nonneg (stackValue x.stack).ref?
  have htitle := amount_nonneg x.titleValue.ref?
  have hnameText := amount_nonneg x.nameText
  have htitleText := amount_nonneg x.titleText
  have htexts := amounts_nonneg (stackTexts x.stack)
  unfold getException
  rw [solvent_append]
  refine ⟨solvent_acquire _, ?_⟩
  cases x.isError with
  | false => trivial
  | true =>
    simp only [if_true, solvent_append, net_append, net_each_acquire, net_getProperty_read, net_each_read,
      net_each_drop, net_toCStringCode, net_stackLoop, solvent_acquire, and_true]
    refine ⟨⟨⟨⟨⟨⟨⟨⟨solvent_getProperty_read _ (solvent_read ?_),
      solvent_getProperty_read _ (solvent_read ?_)⟩, solvent_getProperty_read _ (solvent_read ?_)⟩,
      solvent_read ?_, solvent_read ?_⟩, solvent_drop ?_⟩, solvent_toCStringCode _ ?_⟩,
      solvent_toCStringCode _ ?_⟩, solvent_stackLoop ?_ ?_⟩, solvent_drop ?_⟩
    all_goals
      intro d
      have h1 : 0 ≤ amount x.exc.ref? d := hexc d
      have h2 : 0 ≤ amount x.func.ref? d := hfunc d
      have h3 : 0 ≤ amount x.nameValue.ref? d := hname d
      have h4 : 0 ≤ amount (stackValue x.stack).ref? d := hstack d
      have h5 : 0 ≤ amount x.titleValue.ref? d := htitle d
      have h6 : 0 ≤ amount x.nameText d := hnameText d
      have h7 : 0 ≤ amount x.titleText d := htitleText d
      have h8 : 0 ≤ amounts (stackTexts x.stack) d := htexts d
      simp only [Pi.add_apply, Pi.neg_apply, Pi.sub_apply, Pi.zero_apply]
      omega

end ErrorRead

end Pieces

/-! ## No entry spends what it does not own -/

theorem Entry.solvent_code (e : Entry L) (h : e.Proper) : Solvent e.borrowed 0 e.code := by
  cases e with
  | executeScript val k =>
    cases val with
    | none => trivial
    | some val =>
      refine solvent_append.mpr ⟨solvent_acquire _, solvent_toJObject k ?_⟩
      rw [net_each_acquire, zero_add]
  | getGlobalObject v | initNewJSObject v | initNewJSArray v | initNewJSFunction v =>
    refine solvent_append.mpr ⟨solvent_acquire _, solvent_toJavaObject ?_⟩
    rw [net_each_acquire, zero_add]
  | get this_obj result k | arrayGet this_obj result k =>
    refine solvent_append.mpr ⟨solvent_getProperty_deref _ _, solvent_toJObject k ?_⟩
    rw [net_getProperty_deref, zero_add]
  | getValue this_obj result | arrayGetValue this_obj result =>
    refine solvent_append.mpr ⟨solvent_getProperty_deref _ _, solvent_toJavaObject ?_⟩
    rw [net_getProperty_deref, zero_add]
  | contains this_obj atom =>
    refine solvent_append.mpr ⟨solvent_append.mpr ⟨solvent_acquire _, solvent_deref _⟩, solvent_drop ?_⟩
    rw [net_append, net_each_acquire, net_each_deref, add_zero, zero_add]
  | getKeys this_obj keys =>
    refine solvent_append.mpr ⟨solvent_append.mpr ⟨solvent_deref _, ?_⟩, ?_⟩
    all_goals
      refine solvent_flatMap (fun key _ => ?_) fun key _ => solvent_acquire _
      rw [net_each_acquire]
      exact amount_nonneg _
  | executeFunction2 func_obj c k =>
    refine solvent_append.mpr ⟨solvent_append.mpr ⟨solvent_derefDup _,
      c.solvent_executeFunction ?_ ?_⟩, solvent_toJObject k ?_⟩
    · rw [net_each_derefDup, zero_add]
    · rw [net_each_derefDup, zero_add]
      exact amount_nonneg _
    · rw [net_append, net_each_derefDup, c.net_executeFunction, zero_add, add_sub_cancel]
      exact le_add_of_nonneg_left (amount_nonneg _)
  | executeFunction func_obj c k =>
    refine solvent_append.mpr ⟨solvent_append.mpr ⟨solvent_getProperty_deref _ _,
      c.solvent_executeFunction ?_ ?_⟩, solvent_toJObject k ?_⟩
    · rw [net_getProperty_deref, zero_add]
    · rw [net_getProperty_deref, zero_add]
      exact amount_nonneg _
    · rw [net_append, net_getProperty_deref, c.net_executeFunction, zero_add, add_sub_cancel]
      exact le_add_of_nonneg_left (amount_nonneg _)
  | callJavaCallback t => exact t.solvent_callJavaCallback h
  | registerJavaMethod this_obj func =>
    have hfunc := amount_nonneg func.ref?
    have hdup : Solvent [] (amount func.ref?) (each .dup func.ref?) :=
      solvent_each _ fun c hc => Or.inl (pos_of_amount_le le_rfl c hc)
    simp only [Entry.code, Entry.borrowed, solvent_append, net_append, net_each_acquire, net_each_dup,
      net_each_deref, net_each_give, zero_add, add_zero, solvent_acquire, solvent_deref, true_and, and_true]
    refine ⟨⟨hdup, solvent_give (le_add_of_nonneg_left hfunc)⟩, solvent_toJavaObject ?_⟩
    rw [add_neg_cancel_right]
  | getObjectType value =>
    cases value with
    | object p => exact ⟨trivial, trivial⟩
    | _ => trivial
  | set this_obj value newString =>
    refine solvent_append.mpr ⟨solvent_append.mpr ⟨solvent_jobjectToJSValueCode _ _, solvent_deref _⟩,
      solvent_give ?_⟩
    rw [net_append, net_jobjectToJSValueCode, net_each_deref, add_zero, zero_add]
  | arrayAdd this_obj len value newString =>
    refine solvent_append.mpr ⟨solvent_append.mpr ⟨solvent_append.mpr ⟨solvent_getProperty_deref _ _,
      solvent_jobjectToJSValueCode _ _⟩, solvent_deref _⟩, solvent_give ?_⟩
    rw [net_append, net_append, net_getProperty_deref, net_jobjectToJSValueCode, net_each_deref, add_zero,
      zero_add]
    exact le_add_of_nonneg_left (amount_nonneg _)
  | isUndefined value => trivial
  | undefined => trivial
  | getException x => exact x.solvent_getException
  | moduleLoader func_val =>
    refine solvent_append.mpr ⟨solvent_acquire _, solvent_drop ?_⟩
    rw [net_each_acquire, zero_add]
  | workerConstructor t java_caller_id => exact t.solvent_js_worker_constructor java_caller_id h
  | newClass func =>
    refine solvent_append.mpr ⟨solvent_append.mpr ⟨solvent_acquire _, solvent_read ?_⟩,
      solvent_toJavaObject ?_⟩
    · rw [net_each_acquire, zero_add]
    · rw [net_append, net_each_acquire, net_each_read, add_zero, zero_add]

/-! ## Which entries leave nothing over -/

theorem ErrorRead.leftover_le_zero_iff (x : ErrorRead L) :
    x.leftover ≤ 0 ↔ x.LeakFree := by
  have h1 := amount_nonneg x.nameValue.ref?
  have h2 := amount_nonneg x.titleValue.ref?
  have h3 := amount_nonneg x.nameText
  have h4 := amount_nonneg x.titleText
  have h5 := amounts_nonneg (stackTexts x.stack)
  unfold leftover LeakFree
  cases x.isError with
  | false => exact amount_le_zero_iff
  | true =>
    rw [if_pos rfl, if_pos rfl, add_le_zero_iff (add_nonneg (add_nonneg (add_nonneg h1 h2) h3) h4) h5,
      add_le_zero_iff (add_nonneg (add_nonneg h1 h2) h3) h4, add_le_zero_iff (add_nonneg h1 h2) h3,
      add_le_zero_iff h1 h2]
    simp only [amount_le_zero_iff, amounts_le_zero_iff, and_assoc]

/-- What a converted call result leaves over besides the length of the parameters. -/
theorem Call.settled_iff (c : Call L) (k : Conversion L) :
    amount c.length + (amount c.result.ref? + net (k.toJObject c.result)) ≤ 0 ↔
      c.length = none ∧ k.Kept c.result := by
  rw [add_le_zero_iff (amount_nonneg _) (leftover_toJObject_nonneg k c.result), amount_le_zero_iff,
    settled_toJObject_iff]

theorem net_flatMap_acquire {κ : Type*} (cell : κ → Option (Addr L)) (keys : List κ) :
    net (keys.flatMap fun key => each .acquire (cell key)) = amounts (keys.map cell) := by
  rw [net_flatMap]
  simp [amounts, Function.comp_def]

/-- **An entry leaves no reference over exactly if it is leak free.** -/
theorem Entry.net_code_le_zero_iff (e : Entry L) : net e.code ≤ 0 ↔ e.LeakFree := by
  have hzero : ∀ {o : Amount (Addr L)}, o = 0 → (o ≤ 0 ↔ True) := fun h => iff_of_true h.le trivial
  cases e with
  | executeScript val k =>
    cases val with
    | none => exact hzero rfl
    | some val =>
      rw [Entry.code, net_append, net_each_acquire]
      exact settled_toJObject_iff k val
  | getGlobalObject v | initNewJSObject v | initNewJSArray v | initNewJSFunction v =>
    refine hzero ?_
    rw [Entry.code, net_append, net_each_acquire, net_toJavaObject, add_neg_cancel]
  | get this_obj result k | arrayGet this_obj result k =>
    rw [Entry.code, net_append, net_getProperty_deref]
    exact settled_toJObject_iff k result
  | getValue this_obj result | arrayGetValue this_obj result =>
    refine hzero ?_
    rw [Entry.code, net_append, net_getProperty_deref, net_toJavaObject, add_neg_cancel]
  | contains this_obj atom =>
    refine hzero ?_
    simp [Entry.code]
  | getKeys this_obj keys =>
    rw [Entry.code, net_append, net_append, net_each_deref, zero_add, net_flatMap_acquire, net_flatMap_acquire,
      add_le_zero_iff (amounts_nonneg _) (amounts_nonneg _), amounts_le_zero_iff, amounts_le_zero_iff,
      List.forall_mem_map, List.forall_mem_map]
    exact ⟨fun h key hkey => ⟨h.1 key hkey, h.2 key hkey⟩,
      fun h => ⟨fun key hkey => (h key hkey).1, fun key hkey => (h key hkey).2⟩⟩
  | executeFunction2 func_obj c k =>
    rw [Entry.code, net_append, net_append, net_each_derefDup, c.net_executeFunction, add_sub_cancel,
      add_assoc]
    exact c.settled_iff k
  | executeFunction func_obj c k =>
    rw [Entry.code, net_append, net_append, net_getProperty_deref, c.net_executeFunction, add_sub_cancel,
      add_assoc]
    exact c.settled_iff k
  | callJavaCallback t =>
    refine iff_of_true ?_ trivial
    rw [Entry.code, t.net_callJavaCallback]
    split
    · exact neg_nonpos_of_nonneg (amount_nonneg _)
    · exact le_rfl
  | registerJavaMethod this_obj func =>
    refine hzero ?_
    simp [Entry.code]
  | getObjectType value =>
    refine hzero ?_
    cases value <;> simp [Entry.code, net, Instr.delta]
  | set this_obj value newString =>
    refine hzero ?_
    simp [Entry.code]
  | arrayAdd this_obj len value newString =>
    have hnet : net (Entry.arrayAdd this_obj len value newString).code = amount len.ref? := by
      simp [Entry.code]
    rw [hnet]
    exact amount_le_zero_iff
  | isUndefined value => exact hzero rfl
  | undefined => exact hzero rfl
  | getException x =>
    rw [Entry.code, x.net_getException]
    exact x.leftover_le_zero_iff
  | moduleLoader func_val =>
    refine hzero ?_
    simp [Entry.code]
  | workerConstructor t java_caller_id =>
    rw [Entry.code, t.net_js_worker_constructor]
    cases ht : t.thisIsGlobal with
    | true =>
      rw [if_pos rfl, ← sub_eq_add_neg, sub_nonpos, amount_le_amount_iff]
      simp only [Entry.LeakFree, ht, true_and]
    | false =>
      rw [if_neg Bool.false_ne_true, add_zero, amount_le_zero_iff]
      simp only [Entry.LeakFree, ht, Bool.false_eq_true, false_and, or_false]
  | newClass func =>
    refine hzero ?_
    simp [Entry.code]

end QuickJSBridge.Native
