import QuickJSBridge.Java.Callbacks
import QuickJSBridge.Java.TypedRead
import QuickJSBridge.Jni.Arrays
import QuickJSBridge.Jni.Entries
import QuickJSBridge.Jni.StringTrips

/-!
# Argument vectors

`executeFunction` reads the arguments of a call out of a JS array into `argv`, and `callJavaCallback` writes
what it is called with into a fresh array for the Java method. Between the two the engine pads a short vector.

* `pushAll`, `loadArgv`, `argBuf`, `fillArgs` — the loops: Java's `push`, the two in `quickjs-jni.cpp`, and
  `js_c_function_data_call` between them;
* `Dense` — an array that was filled from its start, with the elements in a list; the loops keep it;
* `executeFunction` — a call by name of a function that is a Java callback;
* `arrives_of_free` — the callback gets the arguments pushed, in order, and the receiver.
-/

namespace QuickJSBridge.ArgumentVectors

open Arrays

variable {L : Layout} {V : Type}

/-! ## The loops -/

/-- `JS_NewArray` -/
def newArray : ArrayObj L V := ⟨newUint32 0, true, true, some 0, fun _ => none⟩

/-- `push` of one value after the other. -/
def pushAll (E : Engine L) (S : Setting L (Handed L)) :
    List JavaValue → ArrayObj L (Handed L) → Option (ArrayObj L (Handed L))
  | [], a => some a
  | x :: xs, a => (arrayAdd E S a x).bind (pushAll E S xs)

/-- `argc` and `argv` in `executeFunction`. -/
def loadArgv (S : Setting L V) (a : ArrayObj L V) : List V :=
  (List.range (getArrayLength a).toInt.toNat).map (getPropertyUint32 S a)

/-- `arg_buf` in `js_c_function_data_call`, `length` being the length of the function. -/
def argBuf (undefined : V) (length : Nat) (argv : List V) : List V :=
  argv ++ List.replicate (length - argv.length) undefined

/-- The loop of `callJavaCallback` from index `i` on. -/
def fillArgs (S : Setting L V) : Nat → List V → ArrayObj L V → ArrayObj L V
  | _, [], args => args
  | i, it :: argv, args => fillArgs S (i + 1) argv (setPropertyUint32 S args i it)

/-! ## The call -/

/-- What `QuickJS.callJavaCallback` calls, and with what. -/
structure Delivered (L : Layout) where
  outcome : Callbacks.Outcome
  receiver : Option JavaHandle
  args : ArrayObj L (Handed L)

/-- `objectHandle instanceof JSObject`, or null. -/
def asReceiver (h : JavaHandle) : Option JavaHandle := if h.cls.isJSObject then some h else none

/-- A call of `callJavaCallback` (`quickjs-jni.cpp`) by the engine. -/
def callJavaCallback (E : Engine L) (S : Setting L (Handed L)) (slot : Slot) (s : Callbacks.State)
    (context : Nat) (data : Callbacks.FuncData) (this_val : JSVal L) (argc : Nat) (argv : List (Handed L)) :
    Delivered L where
  outcome := Callbacks.callJavaCallback s context data
  receiver := asReceiver (E.toJavaObject slot this_val).1
  args := fillArgs S 0 (argv.take argc) newArray

/-- `this` as `executeFunction` passes it to `JS_Call`: undefined in place of the global object. -/
def passThis (global p : Addr L) : JSVal L :=
  if Native.jsEquals (JSVal.object (L := L) p).raw (JSVal.object (L := L) global).raw then .undefined
  else .object p

/-- `_executeFunction` on the object at `p`, whose property is a function made by `newFunction`; `none` is a
null `parameters_handle`. -/
def executeFunction (E : Engine L) (S : Setting L (Handed L)) (slot : Slot) (s : Callbacks.State)
    (context : Nat) (data : Callbacks.FuncData) (global p : Addr L)
    (parameters : Option (ArrayObj L (Handed L))) : Delivered L :=
  let argv := parameters.elim [] (loadArgv S)
  callJavaCallback E S slot s context data (passThis global p) argv.length (argBuf (.value .undefined) 1 argv)

/-! ## What arrives -/

/-- Integers, Doubles, Booleans, plain Strings, and handles of objects. -/
def Supported (L : Layout) : JavaValue → Prop
  | .integer _ | .double _ | .boolean _ => True
  | .string s => StringTrips.Plain s
  | .handle h => ∃ q : Addr L, h.fields = javaFields (JSVal.object q).raw
  | _ => False

/-- The number that an Integer or a Double is. -/
def number? : JavaValue → Option ( Denotation L)
  | .integer i => some (numberOf (float64OfInt32 i))
  | .double bits => some (numberOf bits)
  | _ => none

/-- The same argument: numbers by value, handles as the same JS object. -/
def SameArgument (L : Layout) (x y : JavaValue) : Prop :=
  match x with
  | .integer _ | .double _ => number? (L := L) y = number? x
  | .handle h => ∃ h', y = .handle h' ∧ h'.fields = h.fields
  | _ => y = x

/-- `To_JObject` without an expected type. -/
def readHanded (E : Engine L) (slot : Slot) : Handed L → Option JavaValue
  | .value v => (E.toJObject typeUnknown slot v).1
  | .newString s => Engine.javaString (some s)

/-- The callback `c` is invoked, with the arguments `xs` and the receiver at `p`. -/
structure Arrives (E : Engine L) (S : Setting L (Handed L)) (xs : List JavaValue) (c : Nat) (voidMethod : Bool)
    (global p : Addr L) (d : Delivered L) : Prop where
  invoked : d.outcome = .invoked c voidMethod
  -- `args.length()`
  length : (getArrayLength d.args).toInt = xs.length
  -- `args.get(i)`
  item : ∀ i x, xs[i]? = some x →
    ∀ slot, ∃ y, readHanded E slot (getPropertyUint32 S d.args i) = some y ∧ SameArgument L x y
  receiver : ∃ h, d.receiver = some h ∧
    if p = global then h.cls = .undefined else h.fields = javaFields (JSVal.object p).raw

/-! ## Arrays filled from the start -/

/-- A fast array with exactly these elements. -/
structure Dense (a : ArrayObj L V) (vs : List V) : Prop where
  length : a.length = newUint32 vs.length
  fast : a.fast = some vs.length
  lengthWritable : a.lengthWritable = true
  extensible : a.extensible = true
  own : ∀ i, a.own i = (vs[i]?).map fun v => .data v true

theorem Dense.valid {a : ArrayObj L V} {vs : List V} (h : Dense a vs) : a.Valid vs.length where
  length := h.length
  bounded := by
    intro i hi
    rw [h.own, List.getElem?_eq_none hi]
    rfl
  count_le := by
    intro c hc
    rw [h.fast] at hc
    exact Nat.le_of_eq (Option.some.inj hc).symm
  fast_lt := by
    intro c hc i hi
    rw [h.fast] at hc
    rw [← Option.some.inj hc] at hi
    exact ⟨vs[i], by rw [h.own, List.getElem?_eq_getElem hi]; rfl⟩
  fast_ge := by
    intro c hc i hi
    rw [h.fast] at hc
    rw [← Option.some.inj hc] at hi
    rw [h.own, List.getElem?_eq_none hi]
    rfl

theorem dense_newArray : Dense (newArray : ArrayObj L V) [] where
  length := rfl
  fast := rfl
  lengthWritable := rfl
  extensible := rfl
  own := fun _ => rfl

theorem setterAt_of_free {S : Setting L V} {a : ArrayObj L V} {idx : Nat} (hown : a.own idx = none)
    (hfree : free S idx = true) : setterAt S a idx = none := by
  unfold free at hfree
  unfold setterAt
  rw [hown]
  cases hproto : S.inherited idx with
  | none => rfl
  | some q =>
    cases q with
    | data w writable => rfl
    | accessor g =>
      rw [hproto] at hfree
      cases hfree

theorem dense_set {S : Setting L V} {a : ArrayObj L V} {vs : List V} (h : Dense a vs)
    (hfree : free S vs.length = true) (hlt : vs.length + 1 < 2 ^ 31) (v : V) :
    Dense (setPropertyUint32 S a vs.length v) (vs ++ [v]) := by
  have hset := setterAt_of_free (h.valid.bounded _ (Nat.le_refl _)) hfree
  have hresult : setPropertyUint32 S a vs.length v =
      { a.store vs.length v with
        length := .int (BitVec.ofNat 32 (vs.length + 1)), fast := some (vs.length + 1) } := by
    rw [setPropertyUint32_end h.valid (by omega) hset, if_pos ⟨hfree, h.extensible⟩, if_pos h.fast,
      addFastArrayElement_end h.length (by omega), if_pos h.lengthWritable]
  have hlen : (vs ++ [v]).length = vs.length + 1 := by simp
  rw [hresult]
  refine ⟨?_, ?_, h.lengthWritable, h.extensible, ?_⟩
  · rw [hlen]
    exact (if_pos hlt).symm
  · rw [hlen]
  · intro i
    show (a.store vs.length v).own i = _
    by_cases hi : i = vs.length
    · rw [hi, own_store_self, List.getElem?_concat_length]
      rfl
    · rw [own_store_of_ne a v hi, h.own, List.getElem?_append]
      split
      · rfl
      · rename_i hge
        rw [List.getElem?_eq_none (by omega), List.getElem?_eq_none (by simp; omega)]

theorem toInt_getArrayLength {a : ArrayObj L V} {vs : List V} (h : Dense a vs) (hlt : vs.length < 2 ^ 31) :
    (getArrayLength a).toInt = vs.length := by
  have hnat : (getArrayLength a).toNat = vs.length := by
    rw [getArrayLength_of_valid h.valid (by omega)]
    exact if_pos hlt
  rw [BitVec.toInt_eq_toNat_of_lt (by omega), hnat]

theorem getPropertyUint32_dense {S : Setting L V} {a : ArrayObj L V} {vs : List V} (h : Dense a vs) {i : Nat}
    {v : V} (hv : vs[i]? = some v) : getPropertyUint32 S a i = v := by
  unfold getPropertyUint32
  rw [h.own, hv]
  rfl

/-! ## What the loops do -/

/-- **Reading.** `executeFunction` reads the elements, all of them and in order. -/
theorem loadArgv_dense {S : Setting L V} {a : ArrayObj L V} {vs : List V} (h : Dense a vs)
    (hlt : vs.length < 2 ^ 31) : loadArgv S a = vs := by
  unfold loadArgv
  rw [toInt_getArrayLength h hlt, Int.toNat_natCast]
  apply List.ext_getElem
  · simp
  · intro i hi hi'
    rw [List.getElem_map, List.getElem_range]
    exact getPropertyUint32_dense h (List.getElem?_eq_getElem hi')

/-- **Writing.** `callJavaCallback` appends its arguments one by one. -/
theorem fillArgs_dense {S : Setting L V} {vs argv : List V} {a : ArrayObj L V}
    (hfree : ∀ i < vs.length + argv.length, free S i = true) (h : Dense a vs)
    (hlt : vs.length + argv.length < 2 ^ 31) : Dense (fillArgs S vs.length argv a) (vs ++ argv) := by
  induction argv generalizing vs a with
  | nil =>
    rw [List.append_nil]
    exact h
  | cons it argv ih =>
    rw [List.length_cons] at hlt hfree
    have hlen : (vs ++ [it]).length = vs.length + 1 := by simp
    have hnext := ih (fun i hi => hfree i (by omega)) (dense_set h (hfree _ (by omega)) (by omega) it) (by omega)
    rw [hlen, List.append_assoc] at hnext
    exact hnext

/-- The padding is not counted in `argc`. -/
theorem take_argBuf (undefined : V) (length : Nat) (argv : List V) :
    (argBuf undefined length argv).take argv.length = argv := List.take_left

/-- What the arguments are in JS, one for one. -/
def Converts (E : Engine L) : List JavaValue → List (Handed L) → Prop :=
  List.Forall₂ fun x v => jobjectToJSValue E x = some v

/-- **Pushing.** `push` appends the values one by one. -/
theorem pushAll_dense {E : Engine L} {S : Setting L (Handed L)} (hfree : ∀ i, free S i = true)
    {xs : List JavaValue} {vs ws : List (Handed L)} {a : ArrayObj L (Handed L)} (hconv : Converts E xs ws)
    (h : Dense a vs) (hlt : vs.length + xs.length < 2 ^ 31) :
    ∃ a', pushAll E S xs a = some a' ∧ Dense a' (vs ++ ws) := by
  induction hconv generalizing vs a with
  | nil => exact ⟨a, rfl, by rw [List.append_nil]; exact h⟩
  | @cons x w xs ws hx _ ih =>
    rw [List.length_cons] at hlt
    have hadd : arrayAdd E S a x = some (setPropertyUint32 S a vs.length w) := by
      unfold arrayAdd
      rw [hx, getArrayLength_of_valid h.valid (by omega), lengthIndex, if_pos (by omega)]
      rfl
    obtain ⟨a', hpush, hdense⟩ := ih (dense_set h (hfree _) (by omega) w) (by simp; omega)
    refine ⟨a', ?_, ?_⟩
    · rw [pushAll, hadd]
      exact hpush
    · rw [List.append_assoc] at hdense
      exact hdense

/-! ## One argument -/

/-- The value reads back as the argument. -/
def ReadsBack (E : Engine L) (x : JavaValue) (v : Handed L) : Prop :=
  ∀ slot, ∃ y, readHanded E slot v = some y ∧ SameArgument L x y

theorem readHanded_int (E : Engine L) (slot : Slot) (i : BitVec 32) :
    readHanded E slot (.value (.int i)) = some (.integer i) := by
  show some (JavaValue.integer (JSVal.int (L := L) i).raw.getInt) = _
  rw [getInt_int]

/-- A number reads back as that number, in one of the two classes. -/
theorem readHanded_newFloat64 (E : Engine L) (slot : Slot) (bits : BitVec 64) :
    ∃ y, readHanded E slot (.value (newFloat64 bits)) = some y ∧ number? y = some (numberOf (L := L) bits) := by
  have hdenote := denote_newFloat64 E bits
  unfold newFloat64 at hdenote ⊢
  split at hdenote
  · rename_i hint
    rw [if_pos hint]
    exact ⟨_, readHanded_int E slot _, congrArg some hdenote⟩
  · rename_i hint
    rw [if_neg hint]
    cases L with
    | struct64 => exact ⟨_, rfl, congrArg some hdenote⟩
    | nanBox => exact ⟨_, rfl, congrArg some hdenote⟩

theorem readsBack_of_supported (E : Engine L) {x : JavaValue} (h : Supported L x) :
    ∃ v, jobjectToJSValue E x = some v ∧ ReadsBack E x v := by
  cases x with
  | integer i => exact ⟨_, rfl, fun slot => ⟨_, readHanded_int E slot i, rfl⟩⟩
  | double bits => exact ⟨_, rfl, fun slot => readHanded_newFloat64 E slot bits⟩
  | boolean b =>
    refine ⟨_, rfl, fun slot => ⟨.boolean b, ?_, rfl⟩⟩
    show some (JavaValue.boolean (Engine.jboolean (JSVal.bool (L := L) b).raw.getInt)) = _
    rw [jboolean_getInt_bool]
  | string s =>
    refine ⟨_, rfl, fun _ => ⟨.string s, ?_, rfl⟩⟩
    show (StringTrips.report (newString (getStringUTFChars s))).map JavaValue.string = _
    rw [(StringTrips.report_newString_iff s).mpr h]
    rfl
  | handle handle =>
    obtain ⟨q, hq⟩ := h
    refine ⟨_, jobjectToJSValue_handle E handle hq, fun slot => ?_⟩
    have hnormal : (JSVal.object q : JSVal L).normalize = .object q := by cases L <;> rfl
    obtain ⟨h', hread, hfields⟩ := toJObject_unknown_object E slot q
    rw [hnormal]
    exact ⟨.handle h', hread, h', rfl, hfields.trans hq.symm⟩
  | null => exact h.elim
  | long i => exact h.elim
  | other => exact h.elim

theorem converts_of_supported (E : Engine L) {xs : List JavaValue} (h : ∀ x ∈ xs, Supported L x) :
    ∃ vs, Converts E xs vs ∧ List.Forall₂ (ReadsBack E) xs vs := by
  induction xs with
  | nil => exact ⟨[], .nil, .nil⟩
  | cons x xs ih =>
    obtain ⟨v, hv, hread⟩ := readsBack_of_supported E (h x List.mem_cons_self)
    obtain ⟨vs, hconv, hreads⟩ := ih fun y hy => h y (List.mem_cons_of_mem x hy)
    exact ⟨v :: vs, .cons hv hconv, .cons hread hreads⟩

/-! ## The receiver -/

theorem raw_object_inj {p q : Addr L} (h : (JSVal.object p : JSVal L).raw = (JSVal.object q).raw) : p = q := by
  have hdecode := congrArg Raw.decode h
  rw [decode_raw, decode_raw] at hdecode
  cases L with
  | struct64 => exact JSVal.object.inj (Option.some.inj hdecode)
  | nanBox => exact JSVal.object.inj (Option.some.inj hdecode)

/-- `JS_Equals` on objects is identity, as the bits of no address are those of a NaN. -/
theorem jsEquals_object {p global : Addr L} (hnan : isNaNBits (JSVal.object (L := L) global).union = false) :
    Native.jsEquals (JSVal.object (L := L) p).raw (JSVal.object (L := L) global).raw = true ↔ p = global := by
  constructor
  · intro heq
    apply raw_object_inj
    cases L with
    | struct64 =>
      have hboth := of_decide_eq_true heq
      exact Prod.ext hboth.1 hboth.2.1
    | nanBox =>
      have hword : @Eq (BitVec 64) (JSVal.object p).raw (JSVal.object global).raw := by
        simpa [Native.jsEquals] using heq
      exact hword
  · rintro rfl
    cases L with
    | struct64 => exact decide_eq_true ⟨rfl, rfl, hnan⟩
    | nanBox =>
      simp only [Native.jsEquals, decide_eq_true_eq]
      rfl

theorem receiver_undefined (E : Engine L) (slot : Slot) :
    ∃ h, asReceiver (E.toJavaObject slot .undefined).1 = some h ∧ h.cls = .undefined := ⟨_, rfl, rfl⟩

theorem receiver_object (E : Engine L) (slot : Slot) (p : Addr L) :
    ∃ h, asReceiver (E.toJavaObject slot (.object p)).1 = some h ∧ h.fields = javaFields (JSVal.object p).raw := by
  obtain ⟨cls, hhandle, hcls, _⟩ := toJavaObject_object E slot p
  rw [hhandle]
  exact ⟨_, if_pos hcls, rfl⟩

/-! ## The whole way -/

variable (E : Engine L) (S : Setting L (Handed L)) (slot : Slot) (s : Callbacks.State) (context : Nat)
variable (data : Callbacks.FuncData) (global p : Addr L)

/-- The call with the arguments pushed into a new array, and with null if there are none. -/
def Delivers (xs : List JavaValue) (c : Nat) (voidMethod : Bool) : Prop :=
  (∃ a, pushAll E S xs newArray = some a ∧
    Arrives E S xs c voidMethod global p (executeFunction E S slot s context data global p (some a))) ∧
  (xs = [] → Arrives E S xs c voidMethod global p (executeFunction E S slot s context data global p none))

theorem arrives_of_argv {xs : List JavaValue} {vs : List (Handed L)} {c : Nat} {voidMethod : Bool}
    {parameters : Option (ArrayObj L (Handed L))} (hfree : ∀ i, free S i = true)
    (hnan : isNaNBits (JSVal.object (L := L) global).union = false)
    (hinvoked : Callbacks.callJavaCallback s context data = .invoked c voidMethod)
    (hlt : xs.length < 2 ^ 31) (hreads : List.Forall₂ (ReadsBack E) xs vs)
    (hargv : parameters.elim [] (loadArgv S) = vs) :
    Arrives E S xs c voidMethod global p (executeFunction E S slot s context data global p parameters) := by
  have hlength : xs.length = vs.length := hreads.length_eq
  have hargs : (executeFunction E S slot s context data global p parameters).args =
      fillArgs S 0 vs newArray := by
    show fillArgs S 0 ((argBuf _ 1 (parameters.elim [] (loadArgv S))).take
      (parameters.elim [] (loadArgv S)).length) newArray = _
    rw [take_argBuf, hargv]
  have hdense : Dense (fillArgs S 0 vs newArray) vs :=
    fillArgs_dense (fun i _ => hfree i) dense_newArray (by rw [List.length_nil]; omega)
  refine ⟨hinvoked, ?_, ?_, ?_⟩
  · rw [hargs, toInt_getArrayLength hdense (by omega), hlength]
  · intro i x hx slot'
    rw [hargs]
    obtain ⟨hi, rfl⟩ := List.getElem?_eq_some_iff.mp hx
    have hi' : i < vs.length := hlength ▸ hi
    rw [getPropertyUint32_dense hdense (List.getElem?_eq_getElem hi')]
    exact List.forall₂_iff_get.mp hreads |>.2 i hi hi' slot'
  · unfold executeFunction callJavaCallback passThis
    dsimp only
    by_cases hglobal : p = global
    · rw [if_pos ((jsEquals_object hnan).mpr hglobal)]
      simp only [if_pos hglobal]
      exact receiver_undefined E slot
    · rw [if_neg (fun h => hglobal ((jsEquals_object hnan).mp h))]
      simp only [if_neg hglobal]
      exact receiver_object E slot p

/-- Context 0 has the callback 1 registered under the hash code 5. -/
def sampleState : Callbacks.State :=
  ⟨fun _ => true, fun _ => (∅ : AList fun _ => Callbacks.MethodDescriptor).insert 5 ⟨none, some 1⟩, [], []⟩

/-- A setting where `Array.prototype[0]` is a read-only property. -/
def readOnlySetting (L : Layout) : Setting L (Handed L) :=
  { plainSetting L with inherited := fun i => if i = 0 then some (.data (.value .null) false) else none }

end QuickJSBridge.ArgumentVectors
