import Typeahead.Proofs.Session.Boundaries
import Typeahead.Session.Running

/-!
# An account of the changes

What a commit is to send, told without the queue of a session.  Changes that are flushed stand under
the innermost open savepoint.  Releasing a savepoint gives them to what is around it, rolling back
drops them, and a commit sends those that are left, in their order.  `Account.after` follows a
command; all that it asks of the session is what a flush would write.
-/

namespace Typeahead

/-- An open savepoint with the changes that were flushed in it. -/
structure Block where
  name : Option String
  writes : List PendingWrite

/-- Takes a name away from a savepoint. -/
def Block.unname (name : String) (b : Block) : Block :=
  if b.name = some name then { b with name := none } else b

/-- The changes of the root transaction, the open savepoints, the innermost first, whether a failed
flush broke the innermost transaction, and whether a savepoint that one broke was left.  `flushes`
has the changes of all flushes, `delivered` those that a commit was to deliver, and `sent` those of
them that it met with writes switched on. -/
structure Account where
  base : List PendingWrite
  blocks : List Block
  broken : Bool
  left : Bool
  flushes : List (List PendingWrite)
  delivered : List PendingWrite
  sent : List PendingWrite

namespace Account

/-- Nothing has happened yet. -/
def empty : Account := ⟨[], [], false, false, [], [], []⟩

/-- The changes of several savepoints, in the order of their flushes. -/
def changes (blocks : List Block) : List PendingWrite := blocks.reverse.flatMap Block.writes

/-- The changes that wait for the commit. -/
def pending (a : Account) : List PendingWrite := a.base ++ changes a.blocks

/-- Puts changes under the innermost savepoint, or else under the root transaction. -/
def put (ws : List PendingWrite) (a : Account) : Account :=
  match a.blocks with
  | [] => { a with base := a.base ++ ws }
  | b :: outer => { a with blocks := { b with writes := b.writes ++ ws } :: outer }

/-- Notes the changes of a flush. -/
def note (ws : List PendingWrite) (a : Account) : Account :=
  { a.put ws with flushes := a.flushes ++ [ws] }

/-- Opens a savepoint.  A name stands for the savepoint that it was given to last. -/
def nest (name : String) (a : Account) : Account :=
  { a with blocks := ⟨some name, []⟩ :: a.blocks.map (Block.unname name) }

/-- How many savepoints there are up to that of a name, the innermost first. -/
def depth? (a : Account) (name : String) : Option Nat :=
  (a.blocks.findIdx? fun b => b.name == some name).map (· + 1)

/-- What is done to the savepoints up to that of a name, if it is open. -/
def upTo (name : String) (f : Nat → Account → Account) (a : Account) : Account :=
  match a.depth? name with
  | none => a
  | some n => f n a

/-- The innermost savepoints end, and what is around them gets their changes. -/
def merge (n : Nat) (a : Account) : Account :=
  { a with blocks := a.blocks.drop n }.put (changes (a.blocks.take n))

/-- The innermost savepoints end, and their changes with them. -/
def drop (n : Nat) (a : Account) : Account := { a with blocks := a.blocks.drop n, broken := false }

/-- The root transaction ends with everything in it. -/
def clear (a : Account) : Account := { a with base := [], blocks := [], broken := false }

/-- The root transaction ends, and what waited is delivered. -/
def commit (enabled : Bool) (a : Account) : Account :=
  { a.clear with
    delivered := a.delivered ++ a.pending
    sent := a.sent ++ if enabled then a.pending else [] }

/-- A flush, and what comes next if it succeeds.  One that fails breaks the innermost transaction,
and there is none in a broken one. -/
def flush (written : Except Failure (List PendingWrite)) (next : Account → Account)
    (a : Account) : Account :=
  if a.broken then a
  else
    match written with
    | .ok ws => next (a.note ws)
    | .error _ => { a with broken := true }

/-- Leaves the block of a savepoint. -/
def leave (n : Nat) (a : Account) : Account :=
  if a.broken ∧ n = 1 then { a.merge n with broken := false, left := true } else a.drop n

/-- The account after a command.  `written` is what a flush would write before it. -/
def after (written : Except Failure (List PendingWrite)) (enabled : Bool) (a : Account) :
    Command → Account
  | .flush => a.flush written id
  | .beginNested name => a.flush written (nest name)
  | .release name => a.upTo name fun n => flush written (merge n)
  | .commit => a.flush written (commit enabled)
  | .rollbackTo name => a.upTo name drop
  | .leave name => a.upTo name leave
  | .rollback | .close => a.clear
  | _ => a

/-- The account after an instruction. -/
def step (catalog : Catalog) (backend : Backend) (r : Running) (a : Account) :
    Instruction → Account
  | .session command =>
      a.after ((r.surroundings catalog backend).flushWrites r.session) r.scopes.enabled command
  | _ => a

/-- The account after a program that goes on from a run. -/
def run (catalog : Catalog) (backend : Backend) : Running → Account → List Instruction → Account
  | _, a, [] => a
  | r, a, i :: program =>
      run catalog backend (r.step catalog backend i).2 (a.step catalog backend r i) program

/-- Only the name that is taken away is lost. -/
theorem name_unname_iff (name name' : String) (b : Block) :
    (b.unname name).name = some name' ↔ name ≠ name' ∧ b.name = some name' := by
  unfold Block.unname
  split
  · next hnamed => simp [hnamed]
  · next hother =>
      refine ⟨fun hname => ⟨?_, hname⟩, And.right⟩
      rintro rfl
      exact hother hname

theorem changes_append (xs ys : List Block) : changes (xs ++ ys) = changes ys ++ changes xs := by
  rw [changes, List.reverse_append, List.flatMap_append]
  rfl

theorem changes_cons (b : Block) (blocks : List Block) :
    changes (b :: blocks) = changes blocks ++ b.writes := by
  rw [← List.singleton_append, changes_append]
  simp [changes]

theorem changes_map_unname (name : String) (blocks : List Block) :
    changes (blocks.map (Block.unname name)) = changes blocks := by
  induction blocks with
  | nil => rfl
  | cons b blocks ih =>
      have hwrites : (b.unname name).writes = b.writes := by
        unfold Block.unname
        split
        · rfl
        · rfl
      rw [List.map_cons, changes_cons, changes_cons, ih, hwrites]

theorem mem_changes_drop {blocks : List Block} {m n : Nat} (hmn : m ≤ n) {w : PendingWrite}
    (hw : w ∈ changes (blocks.drop n)) : w ∈ changes (blocks.drop m) := by
  obtain ⟨k, rfl⟩ := Nat.exists_eq_add_of_le hmn
  rw [← List.take_append_drop k (blocks.drop m), changes_append, List.drop_drop]
  exact List.mem_append_left _ hw

variable (a : Account) (ws : List PendingWrite)

@[simp] theorem put_pending : (a.put ws).pending = a.pending ++ ws := by
  unfold put
  cases hblocks : a.blocks with
  | nil => simp [pending, changes, hblocks]
  | cons b outer => simp [pending, changes_cons, hblocks]

@[simp] theorem put_broken : (a.put ws).broken = a.broken := by
  unfold put
  split
  · rfl
  · rfl

@[simp] theorem put_left : (a.put ws).left = a.left := by
  unfold put
  split
  · rfl
  · rfl

@[simp] theorem put_flushes : (a.put ws).flushes = a.flushes := by
  unfold put
  split
  · rfl
  · rfl

@[simp] theorem put_sent : (a.put ws).sent = a.sent := by
  unfold put
  split
  · rfl
  · rfl

@[simp] theorem put_delivered : (a.put ws).delivered = a.delivered := by
  unfold put
  split
  · rfl
  · rfl

@[simp] theorem put_blocks_length : (a.put ws).blocks.length = a.blocks.length := by
  unfold put
  cases hblocks : a.blocks with
  | nil => simp
  | cons b outer => rfl

@[simp] theorem note_pending : (a.note ws).pending = a.pending ++ ws := put_pending a ws

@[simp] theorem note_sent : (a.note ws).sent = a.sent := put_sent a ws

@[simp] theorem note_delivered : (a.note ws).delivered = a.delivered := put_delivered a ws

@[simp] theorem note_broken : (a.note ws).broken = a.broken := put_broken a ws

@[simp] theorem note_left : (a.note ws).left = a.left := put_left a ws

@[simp] theorem note_flushes : (a.note ws).flushes = a.flushes ++ [ws] := rfl

/-- Around the innermost savepoint nothing changes. -/
theorem put_around {b : Block} {n : Nat} (h : (a.put ws).blocks[n]? = some b) :
    (∃ b', a.blocks[n]? = some b' ∧ b'.name = b.name) ∧ (a.put ws).base = a.base ∧
      (a.put ws).blocks.drop (n + 1) = a.blocks.drop (n + 1) := by
  unfold put at h ⊢
  cases hblocks : a.blocks with
  | nil =>
      rw [hblocks] at h
      dsimp only at h
      simp at h
  | cons b' outer =>
      rw [hblocks] at h
      dsimp only at h ⊢
      cases n with
      | zero =>
          obtain rfl := Option.some.inj h
          exact ⟨⟨b', rfl, rfl⟩, rfl, rfl⟩
      | succ n => exact ⟨⟨b, h, rfl⟩, rfl, rfl⟩

@[simp] theorem merge_pending (n : Nat) : (a.merge n).pending = a.pending := by
  rw [merge, put_pending, pending, pending, List.append_assoc, ← changes_append,
    List.take_append_drop]

@[simp] theorem merge_sent (n : Nat) : (a.merge n).sent = a.sent := put_sent _ _

@[simp] theorem merge_delivered (n : Nat) : (a.merge n).delivered = a.delivered :=
  put_delivered _ _

@[simp] theorem merge_broken (n : Nat) : (a.merge n).broken = a.broken := put_broken _ _

@[simp] theorem merge_left (n : Nat) : (a.merge n).left = a.left := put_left _ _

@[simp] theorem merge_flushes (n : Nat) : (a.merge n).flushes = a.flushes := put_flushes _ _

theorem merge_zero : a.merge 0 = a := by
  obtain ⟨base, blocks, broken, left, flushes, delivered, sent⟩ := a
  unfold merge put
  cases blocks with
  | nil => simp [changes]
  | cons b outer => simp [changes]

theorem put_nil : a.put [] = a := by
  obtain ⟨base, blocks, broken, left, flushes, delivered, sent⟩ := a
  unfold put
  cases blocks with
  | nil => simp
  | cons b outer => simp

theorem flush_of_broken (h : a.broken = true) (written : Except Failure (List PendingWrite))
    (next : Account → Account) : a.flush written next = a := if_pos h

theorem flush_of_ok (h : a.broken = false) (next : Account → Account) :
    a.flush (.ok ws) next = next (a.note ws) := by
  unfold flush
  rw [h, if_neg Bool.false_ne_true]

theorem flush_of_error (h : a.broken = false) (e : Failure) (next : Account → Account) :
    a.flush (.error e) next = { a with broken := true } := by
  unfold flush
  rw [h, if_neg Bool.false_ne_true]

theorem commit_sent (enabled : Bool) :
    ((a.note ws).commit enabled).sent = a.sent ++ if enabled then a.pending ++ ws else [] := by
  rw [commit, note_pending, note_sent]

theorem commit_delivered (enabled : Bool) :
    ((a.note ws).commit enabled).delivered = a.delivered ++ (a.pending ++ ws) := by
  rw [commit, note_pending, note_delivered]

/-- A flush that cannot be made sends nothing, whatever was to come after it. -/
theorem flush_sent {written : Except Failure (List PendingWrite)} {e : Failure}
    (h : a.broken = true ∨ written = .error e) (next : Account → Account) :
    (a.flush written next).sent = a.sent := by
  cases hbroken : a.broken with
  | true => rw [a.flush_of_broken hbroken]
  | false =>
      rw [hbroken] at h
      rw [h.resolve_left Bool.false_ne_true, a.flush_of_error hbroken]

/-! Nothing is forgotten, and what was delivered or waits was flushed, each change once and in its
order. -/

/-- Nothing new is flushed.  Changes may be dropped, or go over to those that were delivered. -/
structure Keeps (a a' : Account) : Prop where
  flushes : a'.flushes = a.flushes
  left : a.left = true → a'.left = true
  delivered : a.delivered <+: a'.delivered
  sent : a.sent.Sublist a.delivered → a'.sent.Sublist a'.delivered
  sublist : (a'.delivered ++ a'.pending).Sublist (a.delivered ++ a.pending)

namespace Keeps

variable {a a' a'' : Account}

theorem refl (a : Account) : Keeps a a := ⟨rfl, id, List.prefix_refl _, id, List.Sublist.refl _⟩

theorem trans (h : Keeps a a') (k : Keeps a' a'') : Keeps a a'' :=
  ⟨k.flushes.trans h.flushes, k.left ∘ h.left, h.delivered.trans k.delivered, k.sent ∘ h.sent,
    k.sublist.trans h.sublist⟩

/-- Changes that wait are dropped, at most. -/
theorem of_pending (hflushes : a'.flushes = a.flushes) (hleft : a.left = true → a'.left = true)
    (hdelivered : a'.delivered = a.delivered) (hsent : a'.sent = a.sent)
    (hpending : a'.pending.Sublist a.pending) : Keeps a a' where
  flushes := hflushes
  left := hleft
  delivered := hdelivered ▸ List.prefix_refl a.delivered
  sent := by
    rw [hdelivered, hsent]
    exact id
  sublist := by
    rw [hdelivered]
    exact (List.Sublist.refl a.delivered).append hpending

end Keeps

theorem keeps_nest (name : String) : Keeps a (a.nest name) := by
  refine .of_pending rfl id rfl rfl ?_
  rw [pending, nest, changes_cons, changes_map_unname, List.append_nil]
  exact List.Sublist.refl _

theorem keeps_merge (n : Nat) : Keeps a (a.merge n) := by
  refine .of_pending (a.merge_flushes n) (fun h => (a.merge_left n).trans h) (a.merge_delivered n)
    (a.merge_sent n) ?_
  rw [merge_pending]

theorem keeps_drop (n : Nat) : Keeps a (a.drop n) := by
  refine .of_pending rfl id rfl rfl ((List.Sublist.refl a.base).append ?_)
  have hsplit := changes_append (a.blocks.take n) (a.blocks.drop n)
  rw [List.take_append_drop] at hsplit
  rw [hsplit]
  exact List.sublist_append_left _ _

theorem keeps_clear : Keeps a a.clear := .of_pending rfl id rfl rfl (List.nil_sublist _)

theorem keeps_commit (enabled : Bool) : Keeps a (a.commit enabled) := by
  refine ⟨rfl, id, List.prefix_append _ _, fun h => h.append ?_, ?_⟩
  · cases enabled with
    | false => exact List.nil_sublist _
    | true => exact List.Sublist.refl _
  · rw [show (a.commit enabled).pending = [] from rfl, List.append_nil]
    exact List.Sublist.refl _

theorem keeps_leave (n : Nat) : Keeps a (a.leave n) := by
  unfold leave
  split
  · exact (a.keeps_merge n).trans (.of_pending rfl (fun _ => rfl) rfl rfl (List.Sublist.refl _))
  · exact a.keeps_drop n

/-- At most one flush is noted, and that is what was written. -/
def Notes (written : Except Failure (List PendingWrite)) (a a' : Account) : Prop :=
  Keeps a a' ∨ ∃ ws, written = .ok ws ∧ Keeps (a.note ws) a'

theorem notes_flush (written : Except Failure (List PendingWrite)) {next : Account → Account}
    (hnext : ∀ a, Keeps a (next a)) : Notes written a (a.flush written next) := by
  unfold flush
  split
  · exact Or.inl (.refl a)
  · cases written with
    | ok ws => exact Or.inr ⟨ws, rfl, hnext _⟩
    | error e => exact Or.inl (.of_pending rfl id rfl rfl (List.Sublist.refl _))

theorem notes_upTo {written : Except Failure (List PendingWrite)} (name : String)
    {f : Nat → Account → Account} (hf : ∀ n, Notes written a (f n a)) :
    Notes written a (a.upTo name f) := by
  unfold upTo
  cases a.depth? name with
  | none => exact Or.inl (.refl a)
  | some n => exact hf n

theorem notes_after (written : Except Failure (List PendingWrite)) (enabled : Bool)
    (command : Command) : Notes written a (a.after written enabled command) := by
  cases command with
  | flush => exact a.notes_flush written .refl
  | beginNested name => exact a.notes_flush written fun a => a.keeps_nest name
  | release name =>
      exact a.notes_upTo name fun n => a.notes_flush written fun a => a.keeps_merge n
  | commit => exact a.notes_flush written fun a => a.keeps_commit enabled
  | rollbackTo name => exact a.notes_upTo name fun n => Or.inl (a.keeps_drop n)
  | leave name => exact a.notes_upTo name fun n => Or.inl (a.keeps_leave n)
  | rollback => exact Or.inl a.keeps_clear
  | close => exact Or.inl a.keeps_clear
  | _ => exact Or.inl (.refl a)

namespace Notes

variable {written : Except Failure (List PendingWrite)} {a a' : Account}

theorem flushes (h : Notes written a a') :
    a'.flushes = a.flushes ∨ ∃ ws, written = .ok ws ∧ a'.flushes = a.flushes ++ [ws] := by
  rcases h with hkeeps | ⟨ws, hws, hkeeps⟩
  · exact Or.inl hkeeps.flushes
  · exact Or.inr ⟨ws, hws, hkeeps.flushes⟩

theorem left (h : Notes written a a') (hleft : a.left = true) : a'.left = true := by
  rcases h with hkeeps | ⟨ws, _, hkeeps⟩
  · exact hkeeps.left hleft
  · exact hkeeps.left ((a.note_left ws).trans hleft)

theorem delivered (h : Notes written a a') : a.delivered <+: a'.delivered := by
  rcases h with hkeeps | ⟨ws, _, hkeeps⟩
  · exact hkeeps.delivered
  · rw [← a.note_delivered ws]
    exact hkeeps.delivered

theorem sent (h : Notes written a a') (hsent : a.sent.Sublist a.delivered) :
    a'.sent.Sublist a'.delivered := by
  rcases h with hkeeps | ⟨ws, _, hkeeps⟩
  · exact hkeeps.sent hsent
  · refine hkeeps.sent ?_
    rw [note_sent, note_delivered]
    exact hsent

theorem ordered (h : Notes written a a')
    (hordered : (a.delivered ++ a.pending).Sublist a.flushes.flatten) :
    (a'.delivered ++ a'.pending).Sublist a'.flushes.flatten := by
  rcases h with hkeeps | ⟨ws, _, hkeeps⟩
  · rw [hkeeps.flushes]
    exact hkeeps.sublist.trans hordered
  · rw [hkeeps.flushes, note_flushes, List.flatten_append, List.flatten_singleton]
    refine hkeeps.sublist.trans ?_
    rw [note_delivered, note_pending, ← List.append_assoc]
    exact hordered.append (List.Sublist.refl ws)

end Notes

/-- Nothing but a commit sends anything. -/
theorem after_sent (written : Except Failure (List PendingWrite)) (enabled : Bool)
    {command : Command} (hcommand : command ≠ .commit) :
    (a.after written enabled command).sent = a.sent := by
  have hflush {next : Account → Account} (hnext : ∀ a, (next a).sent = a.sent) :
      (a.flush written next).sent = a.sent := by
    unfold flush
    split
    · rfl
    · cases written with
      | ok ws => exact (hnext _).trans (a.note_sent ws)
      | error e => rfl
  have hupTo (name : String) {f : Nat → Account → Account} (hf : ∀ n, (f n a).sent = a.sent) :
      (a.upTo name f).sent = a.sent := by
    unfold upTo
    cases a.depth? name with
    | none => rfl
    | some n => exact hf n
  cases command with
  | flush => exact hflush fun _ => rfl
  | beginNested name => exact hflush fun _ => rfl
  | release name => exact hupTo name fun n => hflush fun a => a.merge_sent n
  | commit => exact absurd rfl hcommand
  | rollbackTo name => exact hupTo name fun n => rfl
  | leave name =>
      refine hupTo name fun n => ?_
      unfold leave
      split
      · exact a.merge_sent n
      · rfl
  | _ => rfl

variable (catalog : Catalog) (backend : Backend)

theorem notes_step (r : Running) (i : Instruction) :
    Notes ((r.surroundings catalog backend).flushWrites r.session) a
      (a.step catalog backend r i) := by
  cases i with
  | session command => exact a.notes_after _ _ command
  | _ => exact Or.inl (.refl a)

theorem step_sent (r : Running) {i : Instruction} (hi : i ≠ .session .commit) :
    (a.step catalog backend r i).sent = a.sent := by
  cases i with
  | session command => exact a.after_sent _ _ fun h => hi (congrArg _ h)
  | _ => rfl

/-- What was delivered stays so, and a savepoint that was left stays noted. -/
theorem run_goes_on (r : Running) (program : List Instruction) :
    a.delivered <+: (run catalog backend r a program).delivered ∧
      (a.left = true → (run catalog backend r a program).left = true) := by
  induction program generalizing r a with
  | nil => exact ⟨List.prefix_refl _, id⟩
  | cons i program ih =>
      have hnotes := a.notes_step catalog backend r i
      obtain ⟨hdelivered, hleft⟩ := ih (a.step catalog backend r i) (r.step catalog backend i).2
      exact ⟨hnotes.delivered.trans hdelivered, hleft ∘ hnotes.left⟩

end Account

end Typeahead
