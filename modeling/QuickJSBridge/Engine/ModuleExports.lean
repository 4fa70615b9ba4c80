import QuickJSBridge.Engine.Modules
import QuickJSBridge.Lib.Visited
import Mathlib.Data.List.ProdSigma

/-!
# Resolving exports

`js_resolve_export` looks for what a module exports under a name. Exports of other modules are followed, and star
exports tried one after the other; modules may export from each other in circles. The search keeps the pairs of
module and name that it has come to in one list, also from one star export to the next, and gives up a branch
that it comes to again.

* `Provides` — what a module exports, without a search;
* `Explored` — what a search has seen and found; `resolveExport1_explored`, by induction on the fuel;
* `resolveExport_right` — what the answer of the search means;
* `Closed`, `resolveExport1_isSome` — where no module is missing, the search ends.
-/

namespace QuickJSBridge.Es6

open Visited

variable {c : Context}

/-! ## What a module exports -/

/-- Module `m` exports the entry `me` of module `m'` under `name`. -/
inductive Provides (c : Context) : Nat → Text → Nat → ExportEntry → Prop where
  | local {m : Nat} {name : Text} {me : ExportEntry} (hfind : (c.defs m).findExportEntry name = some me)
      (htype : me.exportType = .local) : Provides c m name m me
  | namespace {m : Nat} {name : Text} {me : ExportEntry} {i : Nat}
      (hfind : (c.defs m).findExportEntry name = some me) (htype : me.exportType = .indirect i)
      (hstar : me.localName = atomStar) : Provides c m name m me
  | indirect {m : Nat} {name : Text} {me : ExportEntry} {i m1 m' : Nat} {me' : ExportEntry}
      (hfind : (c.defs m).findExportEntry name = some me) (htype : me.exportType = .indirect i)
      (hname : me.localName ≠ atomStar) (hm1 : (c.defs m).modules[i]? = some m1)
      (hrest : Provides c m1 me.localName m' me') : Provides c m name m' me'
  | star {m : Nat} {name : Text} {i m1 m' : Nat} {me' : ExportEntry}
      (hfind : (c.defs m).findExportEntry name = none) (hname : name ≠ atomDefault)
      (hi : i ∈ (c.defs m).script.starExportEntries) (hm1 : (c.defs m).modules[i]? = some m1)
      (hrest : Provides c m1 name m' me') : Provides c m name m' me'

/-- The same binding, as `js_resolve_export1` compares two. -/
def Same (m : Nat) (me : ExportEntry) (m' : Nat) (me' : ExportEntry) : Prop :=
  m = m' ∧ me.localName = me'.localName

/-- What an answer of the search means. -/
def ResolveResult.Right (c : Context) (m : Nat) (name : Text) : ResolveResult → Prop
  | .found m' me' => Provides c m name m' me' ∧ ∀ n e, Provides c m name n e → Same n e m' me'
  | .ambiguous => ∃ m₁ me₁ m₂ me₂,
      Provides c m name m₁ me₁ ∧ Provides c m name m₂ me₂ ∧ ¬ Same m₁ me₁ m₂ me₂
  | .notFound | .circular => ∀ n e, ¬ Provides c m name n e

/-! ## What a search has seen -/

/-- What is exported at the pair `q` itself has `P`, and where it goes on from there is in `s`. -/
def Expanded (c : Context) (P : Nat → ExportEntry → Prop) (s : List (Nat × Text)) (q : Nat × Text) : Prop :=
  match (c.defs q.1).findExportEntry q.2 with
  | some me =>
    match me.exportType with
    | .local => P q.1 me
    | .indirect i =>
      if me.localName = atomStar then P q.1 me
      else ∀ m1, (c.defs q.1).modules[i]? = some m1 → (m1, me.localName) ∈ s
  | none =>
    q.2 ≠ atomDefault →
      ∀ i ∈ (c.defs q.1).script.starExportEntries, ∀ m1, (c.defs q.1).modules[i]? = some m1 → (m1, q.2) ∈ s

theorem Expanded.mono {P P' : Nat → ExportEntry → Prop} {s s' : List (Nat × Text)} {q : Nat × Text}
    (hP : ∀ m me, P m me → P' m me) (hs : s ⊆ s') (h : Expanded c P s q) : Expanded c P' s' q := by
  unfold Expanded at h ⊢
  split
  · rename_i me hfind
    rw [hfind] at h
    simp only at h
    split
    · rename_i htype
      rw [htype] at h
      exact hP _ _ h
    · rename_i i htype
      rw [htype] at h
      simp only at h
      split
      · rename_i hstar
        rw [if_pos hstar] at h
        exact hP _ _ h
      · rename_i hstar
        rw [if_neg hstar] at h
        exact fun m1 hm1 => hs (h m1 hm1)
  · rename_i hfind
    rw [hfind] at h
    exact fun hname i hi m1 hm1 => hs (h hname i hi m1 hm1)

/-- A list that is expanded throughout has all that is exported at its pairs. -/
theorem Provides.of_expanded {P : Nat → ExportEntry → Prop} {s : List (Nat × Text)}
    (hall : ∀ q ∈ s, Expanded c P s q) {m m' : Nat} {name : Text} {me' : ExportEntry}
    (h : Provides c m name m' me') (hm : (m, name) ∈ s) : P m' me' := by
  induction h with
  | «local» hfind htype =>
    have hq := hall _ hm
    simpa [Expanded, hfind, htype] using hq
  | «namespace» hfind htype hstar =>
    have hq := hall _ hm
    simpa [Expanded, hfind, htype, hstar] using hq
  | indirect hfind htype hname hm1 _ ih =>
    have hq := hall _ hm
    simp only [Expanded, hfind, htype, if_neg hname] at hq
    exact ih (hq _ hm1)
  | star hfind hname hi hm1 _ ih =>
    have hq := hall _ hm
    simp only [Expanded, hfind] at hq
    exact ih (hq hname _ hi _ hm1)

/-- The binding is the one that was found. -/
def Agrees (r : ResolveResult) (m : Nat) (me : ExportEntry) : Prop :=
  ∃ m' me', r = .found m' me' ∧ Same m me m' me'

theorem Agrees.of_same {r : ResolveResult} {m m' : Nat} {me me' : ExportEntry} (h : Agrees r m' me')
    (hsame : Same m me m' me') : Agrees r m me := by
  obtain ⟨m₀, me₀, hr, hm, hme⟩ := h
  exact ⟨m₀, me₀, hr, hsame.1.trans hm, hsame.2.trans hme⟩

/-- Two bindings that differ, and that `Q` has. -/
def Conflict (Q : Nat → ExportEntry → Prop) : Prop :=
  ∃ m₁ me₁ m₂ me₂, Q m₁ me₁ ∧ Q m₂ me₂ ∧ ¬ Same m₁ me₁ m₂ me₂

/-- A search for `name` in `m`, from the pairs `s` to the pairs `s'`, with the answer `r`. -/
structure Explored (c : Context) (s s' : List (Nat × Text)) (m : Nat) (name : Text) (r : ResolveResult) :
    Prop where
  grown : s ⊆ s'
  here : (m, name) ∈ s'
  found : ∀ m' me', r = .found m' me' → Provides c m name m' me'
  conflict : r = .ambiguous → Conflict (Provides c m name)
  expanded : r ≠ .ambiguous → ∀ q ∈ s', q ∉ s → Expanded c (Agrees r) s' q

/-- The loop over the star exports `idxs`, where `Q` holds of what they provide and of `acc`, found so far. -/
structure StarsExplored (c : Context) (Q : Nat → ExportEntry → Prop) (d : ModuleDef) (name : Text) (idxs : List Nat)
    (acc : Option (Nat × ExportEntry)) (s s' : List (Nat × Text)) (r : ResolveResult) : Prop where
  grown : s ⊆ s'
  seen : r ≠ .ambiguous → ∀ i ∈ idxs, ∀ m1, d.modules[i]? = some m1 → (m1, name) ∈ s'
  found : ∀ m' me', r = .found m' me' → Q m' me'
  conflict : r = .ambiguous → Conflict Q
  agrees : r ≠ .ambiguous → ∀ m' me', acc = some (m', me') → Agrees r m' me'
  expanded : r ≠ .ambiguous → ∀ q ∈ s', q ∉ s → Expanded c (Agrees r) s' q

variable {resolve : List (Nat × Text) → Nat → Text → Option (ResolveResult × List (Nat × Text))}

/-- A star export that does not bring the loop to an end: `found'` is what is found with it. -/
theorem starsExplored_cons {Q : Nat → ExportEntry → Prop} {d : ModuleDef} {name : Text} {i m1 : Nat}
    {idxs : List Nat} {found found' : Option (Nat × ExportEntry)} {s s₁ s' : List (Nat × Text)}
    {ret r : ResolveResult} (hm1 : d.modules[i]? = some m1) (hfirst : Explored c s s₁ m1 name ret)
    (hret : ret ≠ .ambiguous) (hrest : StarsExplored c Q d name idxs found' s₁ s' r)
    (hfound : ∀ m me, found = some (m, me) → found' = some (m, me))
    (hagrees : ∀ m me, Agrees ret m me → ∃ m' me', found' = some (m', me') ∧ Same m me m' me') :
    StarsExplored c Q d name (i :: idxs) found s s' r where
  grown := List.Subset.trans hfirst.grown hrest.grown
  seen := fun hr j hj m2 hm2 => by
    rcases List.mem_cons.mp hj with rfl | hj
    · rw [hm1] at hm2
      cases hm2
      exact hrest.grown hfirst.here
    · exact hrest.seen hr j hj m2 hm2
  found := hrest.found
  conflict := hrest.conflict
  agrees := fun hr m' me' heq => hrest.agrees hr m' me' (hfound m' me' heq)
  expanded := fun hr q hq hqs => by
    by_cases hq₁ : q ∈ s₁
    · refine (hfirst.expanded hret q hq₁ hqs).mono (fun m me hme => ?_) hrest.grown
      obtain ⟨m', me', heq, hsame⟩ := hagrees m me hme
      exact (hrest.agrees hr m' me' heq).of_same hsame
    · exact hrest.expanded hr q hq hq₁

theorem resolveStars_explored {Q : Nat → ExportEntry → Prop} {d : ModuleDef} {name : Text}
    (ih : ∀ s m1 r s', resolve s m1 name = some (r, s') → Explored c s s' m1 name r) {idxs : List Nat}
    {found : Option (Nat × ExportEntry)} {s s' : List (Nat × Text)} {r : ResolveResult}
    (hQ : ∀ i ∈ idxs, ∀ m1, d.modules[i]? = some m1 → ∀ m' me', Provides c m1 name m' me' → Q m' me')
    (hfound : ∀ m' me', found = some (m', me') → Q m' me')
    (h : resolveStars resolve d name idxs found s = some (r, s')) :
    StarsExplored c Q d name idxs found s s' r := by
  induction idxs generalizing found s with
  | nil =>
    cases found with
    | none =>
      cases h
      exact ⟨List.Subset.refl _, nofun, nofun, nofun, nofun, fun _ q hq hqs => absurd hq hqs⟩
    | some b =>
      obtain ⟨m, me⟩ := b
      cases h
      refine ⟨List.Subset.refl _, nofun, fun m' me' heq => ?_, nofun, fun _ m' me' heq => ?_,
        fun _ q hq hqs => absurd hq hqs⟩
      · cases heq
        exact hfound m me rfl
      · cases heq
        exact ⟨m, me, rfl, rfl, rfl⟩
  | cons i idxs ihs =>
    unfold resolveStars at h
    obtain ⟨m1, hm1, h⟩ := Option.bind_eq_some_iff.mp h
    obtain ⟨⟨ret, s₁⟩, hret, h⟩ := Option.bind_eq_some_iff.mp h
    have hfirst := ih s m1 ret s₁ hret
    have hQ₁ := hQ i List.mem_cons_self m1 hm1
    have hQrest := fun j hj => hQ j (List.mem_cons_of_mem i hj)
    have hcontinue : ret ≠ .ambiguous → (∀ m me, ¬ Agrees ret m me) →
        resolveStars resolve d name idxs found s₁ = some (r, s') →
        StarsExplored c Q d name (i :: idxs) found s s' r := fun hne hnone hgo =>
      starsExplored_cons hm1 hfirst hne (ihs hQrest hfound hgo) (fun _ _ heq => heq)
        fun m me hme => absurd hme (hnone m me)
    cases ret with
    | notFound => exact hcontinue nofun (fun m me hme => by obtain ⟨_, _, heq, _⟩ := hme; cases heq) h
    | circular => exact hcontinue nofun (fun m me hme => by obtain ⟨_, _, heq, _⟩ := hme; cases heq) h
    | ambiguous =>
      cases h
      refine ⟨hfirst.grown, fun hr => absurd rfl hr, nofun, fun _ => ?_, fun hr => absurd rfl hr,
        fun hr => absurd rfl hr⟩
      obtain ⟨m₁, me₁, m₂, me₂, h₁, h₂, hne⟩ := hfirst.conflict rfl
      exact ⟨m₁, me₁, m₂, me₂, hQ₁ _ _ h₁, hQ₁ _ _ h₂, hne⟩
    | found resM resMe =>
      have hres : Q resM resMe := hQ₁ _ _ (hfirst.found resM resMe rfl)
      cases found with
      | none =>
        refine starsExplored_cons hm1 hfirst nofun (ihs hQrest (fun m' me' heq => ?_) h) nofun
          fun m me hme => ?_
        · cases heq
          exact hres
        · obtain ⟨_, _, heq, hsame⟩ := hme
          cases heq
          exact ⟨resM, resMe, rfl, hsame⟩
      | some b =>
        obtain ⟨m, me⟩ := b
        simp only at h
        split at h
        · -- the two star exports are in conflict
          rename_i hdiffer
          cases h
          refine ⟨hfirst.grown, fun hr => absurd rfl hr, nofun, fun _ => ?_, fun hr => absurd rfl hr,
            fun hr => absurd rfl hr⟩
          refine ⟨m, me, resM, resMe, hfound m me rfl, hres, fun hsame => ?_⟩
          exact hdiffer.elim (fun hm => hm hsame.1) fun hme => hme hsame.2.symm
        · rename_i hsame
          refine starsExplored_cons hm1 hfirst nofun (ihs hQrest hfound h) (fun _ _ heq => heq)
            fun m' me' hme => ?_
          obtain ⟨_, _, heq, hm', hme'⟩ := hme
          cases heq
          simp only [not_or, not_not] at hsame
          exact ⟨m, me, rfl, hm'.trans hsame.1.symm, hme'.trans hsame.2⟩

/-- The search from a pair that it has not come to before, once the pair is expanded. -/
theorem explored_of_rest {s s₁ s' : List (Nat × Text)} {m : Nat} {name : Text} {r : ResolveResult}
    (hs₁ : s₁ = s ++ [(m, name)]) (hgrown : s₁ ⊆ s')
    (hfound : ∀ m' me', r = .found m' me' → Provides c m name m' me')
    (hconflict : r = .ambiguous → Conflict (Provides c m name))
    (hhere : r ≠ .ambiguous → Expanded c (Agrees r) s' (m, name))
    (hrest : r ≠ .ambiguous → ∀ q ∈ s', q ∉ s₁ → Expanded c (Agrees r) s' q) : Explored c s s' m name r where
  grown := fun q hq => hgrown (by rw [hs₁]; exact List.mem_append_left _ hq)
  here := hgrown (by rw [hs₁]; simp)
  found := hfound
  conflict := hconflict
  expanded := fun hr q hq hqs => by
    by_cases hq₁ : q ∈ s₁
    · rw [hs₁, List.mem_append, List.mem_singleton] at hq₁
      rcases hq₁ with hq₁ | rfl
      · exact absurd hq₁ hqs
      · exact hhere hr
    · exact hrest hr q hq hq₁

theorem resolveExport1_explored {fuel : Nat} {s s' : List (Nat × Text)} {m : Nat} {name : Text}
    {r : ResolveResult} (h : resolveExport1 c fuel s m name = some (r, s')) : Explored c s s' m name r := by
  induction fuel generalizing s m name r s' with
  | zero => cases h
  | succ fuel ih =>
    unfold resolveExport1 at h
    split at h
    · rename_i hmem
      cases h
      exact ⟨List.Subset.refl s, hmem, nofun, nofun, fun _ q hq hqs => absurd hq hqs⟩
    · obtain ⟨d, hd, h⟩ := Option.bind_eq_some_iff.mp h
      unfold Context.read at hd
      split at hd
      · cases hd
        have hnew : ∀ r : ResolveResult, r ≠ .ambiguous → ∀ q ∈ s ++ [(m, name)], q ∉ s ++ [(m, name)] →
            Expanded c (Agrees r) (s ++ [(m, name)]) q := fun _ _ q hq hqs => absurd hq hqs
        split at h
        · rename_i me hfind
          have hself : ∀ r, r = ResolveResult.found m me → Agrees r m me := fun r hr => ⟨m, me, hr, rfl, rfl⟩
          split at h
          · rename_i htype
            cases h
            refine explored_of_rest rfl (List.Subset.refl _) (fun m' me' heq => ?_) nofun (fun _ => ?_) (hnew _)
            · cases heq
              exact .local hfind htype
            · simpa [Expanded, hfind, htype] using hself _ rfl
          · rename_i i htype
            split at h
            · rename_i hstar
              cases h
              refine explored_of_rest rfl (List.Subset.refl _) (fun m' me' heq => ?_) nofun (fun _ => ?_) (hnew _)
              · cases heq
                exact .namespace hfind htype hstar
              · simpa [Expanded, hfind, htype, hstar] using hself _ rfl
            · rename_i hstar
              obtain ⟨m1, hm1, h⟩ := Option.bind_eq_some_iff.mp h
              have hrest := ih h
              refine explored_of_rest rfl hrest.grown
                (fun m' me' heq => .indirect hfind htype hstar hm1 (hrest.found m' me' heq)) (fun hr => ?_)
                (fun _ => ?_) hrest.expanded
              · obtain ⟨m₁, me₁, m₂, me₂, h₁, h₂, hne⟩ := hrest.conflict hr
                exact ⟨m₁, me₁, m₂, me₂, .indirect hfind htype hstar hm1 h₁, .indirect hfind htype hstar hm1 h₂, hne⟩
              · simp only [Expanded, hfind, htype, if_neg hstar]
                intro m2 hm2
                rw [hm1] at hm2
                cases hm2
                exact hrest.here
        · rename_i hfind
          split at h
          · rename_i hdefault
            cases h
            refine explored_of_rest rfl (List.Subset.refl _) nofun nofun (fun _ => ?_) (hnew _)
            simp only [Expanded, hfind]
            exact fun hne => absurd hdefault hne
          · rename_i hdefault
            have hstars := resolveStars_explored (Q := Provides c m name) (fun s m1 r s' hgo => ih hgo)
              (fun i hi m1 hm1 m' me' hrest => .star hfind hdefault hi hm1 hrest) (fun _ _ heq => by cases heq) h
            refine explored_of_rest rfl hstars.grown hstars.found hstars.conflict (fun hr => ?_) hstars.expanded
            simp only [Expanded, hfind]
            exact fun _ => hstars.seen hr
      · cases hd

/-- What the search answers is right. -/
theorem right_of_resolveExport1 {fuel : Nat} {s : List (Nat × Text)} {m : Nat} {name : Text} {r : ResolveResult}
    (h : resolveExport1 c fuel [] m name = some (r, s)) : r.Right c m name := by
  have hexplored := resolveExport1_explored h
  have hall : r ≠ .ambiguous → ∀ n e, Provides c m name n e → Agrees r n e := fun hr n e hprovides =>
    hprovides.of_expanded (fun q hq => hexplored.expanded hr q hq List.not_mem_nil) hexplored.here
  cases r with
  | found m' me' =>
    refine ⟨hexplored.found m' me' rfl, fun n e hprovides => ?_⟩
    obtain ⟨_, _, heq, hsame⟩ := hall nofun n e hprovides
    cases heq
    exact hsame
  | notFound =>
    intro n e hprovides
    obtain ⟨_, _, heq, _⟩ := hall nofun n e hprovides
    cases heq
  | circular =>
    intro n e hprovides
    obtain ⟨_, _, heq, _⟩ := hall nofun n e hprovides
    cases heq
  | ambiguous => exact hexplored.conflict rfl

theorem right_of_resolveExport {fuel m : Nat} {name : Text} {r : ResolveResult}
    (h : resolveExport c fuel m name = some r) : r.Right c m name := by
  obtain ⟨⟨r', s⟩, hr, rfl⟩ := Option.map_eq_some_iff.mp h
  exact right_of_resolveExport1 hr

/-! ## The search ends -/

/-- No request is unresolved, and no module that is referred to has been freed. -/
structure Closed (c : Context) : Prop where
  complete : ∀ m ∈ c.loadedModules, (c.defs m).modules.length = (c.defs m).script.reqModuleEntries.length
  loaded : ∀ m ∈ c.loadedModules, ∀ m1 ∈ (c.defs m).modules, m1 ∈ c.loadedModules

theorem Context.read_of_mem {m : Nat} (h : m ∈ c.loadedModules) : c.read m = some (c.defs m) := if_pos h

/-- What a request entry refers to. -/
theorem Closed.module (h : Closed c) {m i : Nat} (hm : m ∈ c.loadedModules)
    (hi : i < (c.defs m).script.reqModuleEntries.length) :
    ∃ m1, (c.defs m).modules[i]? = some m1 ∧ m1 ∈ c.loadedModules := by
  rw [← h.complete m hm] at hi
  exact ⟨_, List.getElem?_eq_getElem hi, h.loaded m hm _ (List.getElem_mem hi)⟩

/-- The names that a search for `name` can come to. -/
def searchNames (c : Context) (name : Text) : List Text :=
  name :: c.loadedModules.flatMap fun m => (c.defs m).script.exportEntries.map (·.localName)

/-- The pairs that a search for `name` can come to. -/
def searchPairs (c : Context) (name : Text) : List (Nat × Text) := c.loadedModules ×ˢ searchNames c name

theorem mem_of_findExportEntry {d : ModuleDef} {name : Text} {me : ExportEntry}
    (h : d.findExportEntry name = some me) : me ∈ d.script.exportEntries := List.mem_of_find?_eq_some h

/-- The loop over star exports ends when each of their searches does. -/
theorem resolveStars_isSome {d : ModuleDef} {name : Text} {P : List (Nat × Text) → Prop} {idxs : List Nat}
    (hmodule : ∀ i ∈ idxs, ∃ m1, d.modules[i]? = some m1 ∧ ∀ s, P s →
      ∃ r s', resolve s m1 name = some (r, s') ∧ P s')
    {acc : Option (Nat × ExportEntry)} {s : List (Nat × Text)} (hs : P s) :
    ∃ r s', resolveStars resolve d name idxs acc s = some (r, s') := by
  induction idxs generalizing acc s with
  | nil =>
    cases acc with
    | none => exact ⟨_, _, rfl⟩
    | some b => exact ⟨_, _, rfl⟩
  | cons i idxs ih =>
    obtain ⟨m1, hm1, hresolve⟩ := hmodule i List.mem_cons_self
    obtain ⟨ret, s₁, hret, hgrown⟩ := hresolve s hs
    have hrest : ∀ acc, ∃ r s', resolveStars resolve d name idxs acc s₁ = some (r, s') := fun acc =>
      ih (fun j hj => hmodule j (List.mem_cons_of_mem i hj)) hgrown
    unfold resolveStars
    rw [hm1]
    show ∃ r s', (resolve s m1 name).bind _ = some (r, s')
    rw [hret]
    cases ret with
    | ambiguous => exact ⟨_, _, rfl⟩
    | notFound => exact hrest acc
    | circular => exact hrest acc
    | found resM resMe =>
      cases acc with
      | none => exact hrest _
      | some b =>
        obtain ⟨m, me⟩ := b
        show ∃ r s', (if m ≠ resM ∨ resMe.localName ≠ me.localName then some (.ambiguous, s₁)
          else resolveStars resolve d name idxs (some (m, me)) s₁) = some (r, s')
        split
        · exact ⟨_, _, rfl⟩
        · exact hrest _

/-- **The search ends**: with each pair there are fewer that it has not come to. -/
theorem resolveExport1_isSome (hclosed : Closed c) {N : List Text}
    (hN : ∀ m ∈ c.loadedModules, ∀ me ∈ (c.defs m).script.exportEntries, me.localName ∈ N) {fuel : Nat}
    {s : List (Nat × Text)} {m : Nat} {name : Text} (hm : m ∈ c.loadedModules) (hname : name ∈ N)
    (hfuel : unvisited (c.loadedModules ×ˢ N) s < fuel) :
    ∃ r s', resolveExport1 c fuel s m name = some (r, s') := by
  induction fuel generalizing s m name with
  | zero => exact absurd hfuel (Nat.not_lt_zero _)
  | succ fuel ih =>
    unfold resolveExport1
    by_cases hs : (m, name) ∈ s
    · rw [if_pos hs]
      exact ⟨_, _, rfl⟩
    · rw [if_neg hs, Context.read_of_mem hm]
      have hfewer : unvisited (c.loadedModules ×ˢ N) (s ++ [(m, name)]) < fuel := by
        have hlt := unvisited_lt (U := c.loadedModules ×ˢ N) (List.subset_append_left s [(m, name)])
          (List.pair_mem_product.mpr ⟨hm, hname⟩) hs (by simp)
        omega
      show ∃ r s', (match (c.defs m).findExportEntry name with | some me => _ | none => _) = some (r, s')
      split
      · rename_i me hfind
        have hme := mem_of_findExportEntry hfind
        split
        · exact ⟨_, _, rfl⟩
        · rename_i i htype
          split
          · exact ⟨_, _, rfl⟩
          · obtain ⟨m1, hm1, hloaded⟩ := hclosed.module hm ((c.defs m).script.export_lt me hme i htype)
            rw [hm1]
            exact ih hloaded (hN m hm me hme) hfewer
      · split
        · exact ⟨_, _, rfl⟩
        · refine resolveStars_isSome (P := fun s => unvisited (c.loadedModules ×ˢ N) s < fuel) (fun i hi => ?_) hfewer
          obtain ⟨m1, hm1, hloaded⟩ := hclosed.module hm ((c.defs m).script.star_lt i hi)
          refine ⟨m1, hm1, fun s hs => ?_⟩
          obtain ⟨r, s', hr⟩ := ih hloaded hname hs
          exact ⟨r, s', hr, Nat.lt_of_le_of_lt (unvisited_le (resolveExport1_explored hr).grown) hs⟩

/-- Where a search leads to, in a context where no module is missing. -/
theorem Provides.mem (hclosed : Closed c) {m m' : Nat} {name : Text} {me' : ExportEntry}
    (h : Provides c m name m' me') (hm : m ∈ c.loadedModules) :
    m' ∈ c.loadedModules ∧ me' ∈ (c.defs m').script.exportEntries := by
  induction h with
  | «local» hfind _ => exact ⟨hm, mem_of_findExportEntry hfind⟩
  | «namespace» hfind _ _ => exact ⟨hm, mem_of_findExportEntry hfind⟩
  | indirect _ _ _ hm1 _ ih => exact ih (hclosed.loaded _ hm _ (List.mem_of_getElem? hm1))
  | star _ _ _ hm1 _ ih => exact ih (hclosed.loaded _ hm _ (List.mem_of_getElem? hm1))

/-- **`js_resolve_export`** ends in every context where no module is missing, however its modules export from each
other. What it finds the module exports, and nothing else under this name; where it finds nothing, nothing is
exported; and where it says that the name is ambiguous there are two bindings that differ. -/
theorem resolveExport_right (hclosed : Closed c) {m fuel : Nat} {name : Text} (hm : m ∈ c.loadedModules)
    (hfuel : (searchPairs c name).length < fuel) :
    ∃ r, resolveExport c fuel m name = some r ∧ r.Right c m name := by
  obtain ⟨r, s, hr⟩ := resolveExport1_isSome hclosed (N := searchNames c name)
    (fun m' hm' me hme => List.mem_cons_of_mem name (List.mem_flatMap.mpr ⟨m', hm', List.mem_map_of_mem hme⟩))
    hm List.mem_cons_self (Nat.lt_of_le_of_lt (unvisited_le_length _ []) hfuel)
  have hresolve : resolveExport c fuel m name = some r := by
    unfold resolveExport
    rw [hr]
    rfl
  exact ⟨r, hresolve, right_of_resolveExport hresolve⟩

/-- `export * from "request"; export let own` -/
def sampleStar (request own : Text) (hown : own ≠ atomStar) : Script where
  reqModuleEntries := [request]
  exportEntries := [⟨own, own, .local⟩]
  starExportEntries := [0]
  importEntries := []
  export_nodup := List.pairwise_singleton ..
  local_ne := fun me hme _ => by
    rw [List.mem_singleton.mp hme]
    exact hown
  export_lt := fun me hme i hi => by
    rw [List.mem_singleton.mp hme] at hi
    cases hi
  star_lt := fun i hi => by
    rw [List.mem_singleton.mp hi]
    exact Nat.zero_lt_one
  import_lt := nofun

/-- Two modules that export all of each other, and each a name of its own. -/
def sampleStars : Context where
  next := 2
  defs := fun m =>
    if m = 0 then
      { ModuleDef.new [] (sampleStar (ModuleNames.text ['b']) (ModuleNames.text ['x']) (by decide)) with modules := [1] }
    else
      { ModuleDef.new [] (sampleStar (ModuleNames.text ['a']) (ModuleNames.text ['y']) (by decide)) with modules := [0] }
  loadedModules := [0, 1]
  asked := []
  ran := []

theorem sampleStars_closed : Closed sampleStars := ⟨by decide, by decide⟩

theorem resolveExport_right_stars :
    ∃ r, resolveExport sampleStars 9 0 (ModuleNames.text ['y']) = some r ∧
      r.Right sampleStars 0 (ModuleNames.text ['y']) :=
  resolveExport_right sampleStars_closed (by decide) (by decide)

end QuickJSBridge.Es6
