import Typeahead.Switch

/-!
# Programs and the switch

Code opens a scope around a block and leaves it again when the block ends, also when an error
ends it.  `Program` is such code with nothing but its uses of the switch, and `Program.run` says
what happens when it runs: the points it passes, the blocks it enters and leaves, and the error it
ends with.  A run keeps the scoped position of the switch at the flag of the innermost block and
the standing one at the last position given, so each block hands the scoped position back as it
found it.
-/

namespace Typeahead.Switch

/-- Code that uses the switch.  An error ends every block up to the first rescue that lists it. -/
inductive Program where
  | pass
  | setStanding (b : Bool)
  | raise (error : String)
  | andThen (first second : Program)
  | scope (b : Bool) (body : Program)
  | rescue (body : Program) (errors : List String) (handler : Program)
  deriving DecidableEq, Repr

/-- A block without writes. -/
def Program.quiet (body : Program) : Program := .scope false body

/-- The switch at some time of a run, and the standing positions given until then, the latest
first. -/
structure Moment where
  switch : Switch
  given : List Bool
  deriving DecidableEq, Repr

/-- Before a run. -/
def Moment.initial : Moment := ⟨.initial, []⟩

/-- A place in a running program: the flags of the blocks around it, the innermost first, and the
moment at which the run gets there. -/
structure Point where
  blocks : List Bool
  moment : Moment
  deriving DecidableEq, Repr

/-- A block that was entered and left. -/
structure Passage where
  entered : Moment
  left : Moment
  deriving DecidableEq, Repr

/-- What happened while a program ran. -/
structure Run where
  points : List Point
  passages : List Passage
  error : Option String
  last : Moment
  deriving DecidableEq, Repr

/-- One run after another.  The second decides how both end. -/
def Run.followedBy (r s : Run) : Run :=
  ⟨r.points ++ s.points, r.passages ++ s.passages, s.error, s.last⟩

/-- Runs a program inside blocks with these flags.  A block is left in the same way whether or not
an error ended it, and an error that no rescue lists goes on to the code around it. -/
def Program.run : Program → List Bool → Moment → Run
  | .pass, blocks, m => ⟨[⟨blocks, m⟩], [], none, m⟩
  | .setStanding b, blocks, m =>
      let m' : Moment := ⟨m.switch.setStanding b, b :: m.given⟩
      ⟨[⟨blocks, m⟩, ⟨blocks, m'⟩], [], none, m'⟩
  | .raise error, blocks, m => ⟨[⟨blocks, m⟩], [], some error, m⟩
  | .andThen first second, blocks, m =>
      let r := first.run blocks m
      match r.error with
      | none => r.followedBy (second.run blocks r.last)
      | some _ => r
  | .scope b body, blocks, m =>
      let r := body.run (b :: blocks) { m with switch := m.switch.enter b }
      let left : Moment := { r.last with switch := r.last.switch.leave m.switch.inScope }
      ⟨⟨blocks, m⟩ :: r.points ++ [⟨blocks, left⟩], ⟨m, left⟩ :: r.passages, r.error, left⟩
  | .rescue body errors handler, blocks, m =>
      let r := body.run blocks m
      match r.error with
      | none => r
      | some error =>
          if error ∈ errors then r.followedBy (handler.run blocks r.last) else r

/-! ### What a run keeps -/

/-- The scoped position is the flag of the innermost block, and the standing one was given last. -/
structure Moment.Tracks (m : Moment) (blocks : List Bool) : Prop where
  inScope : m.switch.inScope = blocks.head?
  standing : m.switch.standing = m.given.head?.getD true

namespace Moment

variable {m : Moment} {blocks : List Bool}

theorem tracks_initial : initial.Tracks [] := ⟨rfl, rfl⟩

theorem Tracks.enabled_eq (h : m.Tracks blocks) :
    m.switch.enabled = blocks.head?.getD (m.given.head?.getD true) := by
  rw [Switch.enabled, h.inScope, h.standing]
  cases blocks with
  | nil => rfl
  | cons b outer => rfl

theorem Tracks.setStanding (h : m.Tracks blocks) (b : Bool) :
    Tracks ⟨m.switch.setStanding b, b :: m.given⟩ blocks :=
  ⟨h.inScope, rfl⟩

theorem Tracks.enter (h : m.Tracks blocks) (b : Bool) :
    Tracks { m with switch := m.switch.enter b } (b :: blocks) :=
  ⟨rfl, h.standing⟩

/-- Whatever happened inside, leaving with the scoped position from before brings a block's
surroundings back. -/
theorem Tracks.leave (h : m.Tracks blocks) {inside : Moment} {inner : List Bool}
    (hinside : inside.Tracks inner) :
    Tracks { inside with switch := inside.switch.leave m.switch.inScope } blocks :=
  ⟨h.inScope, hinside.standing⟩

end Moment

/-- A block hands back the scoped position it found, and keeps the standing position that was
given inside it. -/
structure Passage.Restores (p : Passage) : Prop where
  inScope : p.left.switch.inScope = p.entered.switch.inScope
  standing : ∃ inside, p.left.given = inside ++ p.entered.given ∧
    p.left.switch.standing = inside.head?.getD p.entered.switch.standing

theorem Passage.Restores.of_tracks {p : Passage} {blocks : List Bool}
    (hentered : p.entered.Tracks blocks) (hleft : p.left.Tracks blocks) {inside : List Bool}
    (hinside : p.left.given = inside ++ p.entered.given) : p.Restores where
  inScope := hleft.inScope.trans hentered.inScope.symm
  standing := by
    refine ⟨inside, hinside, ?_⟩
    rw [hleft.standing, hentered.standing, hinside]
    cases inside with
    | nil => rfl
    | cons b earlier => rfl

/-- A run that begins at a moment inside these blocks, and keeps what it found there. -/
structure Run.Keeps (r : Run) (blocks : List Bool) (m : Moment) : Prop where
  points : ∀ point ∈ r.points, point.moment.Tracks point.blocks
  passages : ∀ passage ∈ r.passages, passage.Restores
  last : r.last.Tracks blocks
  given : ∃ inside, r.last.given = inside ++ m.given

variable {r s : Run} {m : Moment} {blocks : List Bool}

theorem Run.Keeps.followedBy (hr : r.Keeps blocks m) (hs : s.Keeps blocks r.last) :
    (r.followedBy s).Keeps blocks m where
  points := List.forall_mem_append.mpr ⟨hr.points, hs.points⟩
  passages := List.forall_mem_append.mpr ⟨hr.passages, hs.passages⟩
  last := hs.last
  given := by
    obtain ⟨before, hbefore⟩ := hr.given
    obtain ⟨after, hafter⟩ := hs.given
    exact ⟨after ++ before, by rw [Run.followedBy, hafter, hbefore, List.append_assoc]⟩

theorem Program.run_keeps (p : Program) (hm : m.Tracks blocks) :
    (p.run blocks m).Keeps blocks m := by
  -- A block runs its body inside one block more, so the blocks vary along with the moment.
  induction p generalizing blocks m with
  | pass => exact ⟨List.forall_mem_singleton.mpr hm, List.forall_mem_nil _, hm, [], rfl⟩
  | raise error => exact ⟨List.forall_mem_singleton.mpr hm, List.forall_mem_nil _, hm, [], rfl⟩
  | setStanding b =>
      have hset := hm.setStanding b
      exact ⟨List.forall_mem_cons.mpr ⟨hm, List.forall_mem_singleton.mpr hset⟩,
        List.forall_mem_nil _, hset, [b], rfl⟩
  | andThen first second ihfirst ihsecond =>
      have hfirst := ihfirst hm
      simp only [Program.run]
      split
      · exact hfirst.followedBy (ihsecond hfirst.last)
      · exact hfirst
  | scope b body ih =>
      have hbody := ih (hm.enter b)
      have hleft := hm.leave hbody.last
      obtain ⟨inside, hinside⟩ := hbody.given
      refine ⟨?_, ?_, hleft, inside, hinside⟩
      · exact List.forall_mem_cons.mpr ⟨hm,
          List.forall_mem_append.mpr ⟨hbody.points, List.forall_mem_singleton.mpr hleft⟩⟩
      · exact List.forall_mem_cons.mpr ⟨.of_tracks hm hleft hinside, hbody.passages⟩
  | rescue body errors handler ihbody ihhandler =>
      have hbody := ihbody hm
      simp only [Program.run]
      split
      · exact hbody
      · split
        · exact hbody.followedBy (ihhandler hbody.last)
        · exact hbody

/-- At every point of every program the innermost block says whether writes are sent, and outside
of all blocks the last standing position given, at first on.  Each block, however it ends, leaves
the scoped position as it found it and the standing one as it was given last. -/
theorem Program.run_restores (p : Program) :
    (∀ point ∈ (p.run [] .initial).points,
      point.moment.switch.enabled =
        point.blocks.head?.getD (point.moment.given.head?.getD true)) ∧
    ∀ passage ∈ (p.run [] .initial).passages, passage.Restores := by
  have hkeeps := p.run_keeps Moment.tracks_initial
  exact ⟨fun point hpoint => (hkeeps.points point hpoint).enabled_eq, hkeeps.passages⟩

/-- A block with writes is inside of one without, where the standing position is given, and an error
ends both. -/
def Program.halting : Program :=
  .rescue (.quiet (.andThen (.setStanding false) (.scope true (.raise "boom")))) ["boom"] .pass

/-- Both blocks are left by the error, and after them the standing position decides again. -/
theorem Program.run_restores_halting :
    (halting.run [] .initial).points.map (fun p => (p.blocks, p.moment.switch.enabled)) =
        [([], true), ([false], false), ([false], false), ([false], false), ([true, false], true),
          ([false], false), ([], false), ([], false)] ∧
      (halting.run [] .initial).error = none ∧
      (halting.run [] .initial).passages =
        [⟨⟨⟨true, none⟩, []⟩, ⟨⟨false, none⟩, [false]⟩⟩,
          ⟨⟨⟨false, some false⟩, [false]⟩, ⟨⟨false, some false⟩, [false]⟩⟩] ∧
      (∀ point ∈ (halting.run [] .initial).points, point.moment.switch.enabled =
        point.blocks.head?.getD (point.moment.given.head?.getD true)) ∧
      ∀ passage ∈ (halting.run [] .initial).passages, passage.Restores :=
  ⟨by decide, by decide, by decide, run_restores halting⟩

end Typeahead.Switch
