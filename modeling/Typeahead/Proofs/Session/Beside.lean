import Typeahead.Proofs.Session.Repeating
import Typeahead.Proofs.Session.Stuck

/-!
# A session beside a stuck one

A program may go on to add, to set and to delete objects and to search while its session is
stuck.  What comes of it is the same in a session whose delivery was taken, `Session.Beside`,
although that one opens a root transaction for it.  Where the stuck session refuses, nothing has
happened in it, `Exec.Rides`.
-/

namespace Typeahead

namespace Session

/-- The session with other transactions and other calls made. -/
def aside (s : Session) (stack : List Transaction) (created : Nat) (sent : List Call) : Session :=
  { s with stack, created, sent }

/-- Two sessions that differ in the root transaction, in the number of transactions and in the
calls made.  The first one is stuck, and in the other one nothing was flushed since. -/
structure Beside (s u : Session) : Prop where
  stuck : s.IsStuck
  named : ∀ e ∈ s.savepoints, e.2 ∉ s.path
  same : u = s.aside u.stack u.created u.sent
  rows : ∀ t ∈ u.stack.getLast?, t.before = s.rows
  created : u.created = s.created + if u.inTransaction then 1 else 0

theorem begin_eq_aside (s : Session) :
    ∃ stack created, s.begin = s.aside stack created s.sent := by
  unfold begin
  split
  · exact ⟨s.stack, s.created, rfl⟩
  · exact ⟨s.push.stack, s.push.created, rfl⟩

namespace Beside

variable {s u : Session}

theorem exists_eq (h : Beside s u) : ∃ stack created sent, u = s.aside stack created sent :=
  ⟨_, _, _, h.same⟩

theorem begin (h : Beside s u) : Beside s u.begin := by
  obtain ⟨stack, created, sent, rfl⟩ := h.exists_eq
  cases stack with
  | nil =>
      have hcreated : created = s.created := h.created
      refine ⟨h.stuck, h.named, rfl, fun t ht => ?_, ?_⟩
      · obtain rfl := Option.some.inj ht
        rfl
      · rw [← hcreated]
        rfl
  | cons t rest => exact h

/-- What neither looks at transactions nor ends any may happen in both. -/
theorem map {g : Session → Session} (h : Beside s u)
    (hg : ∀ stack created sent, g (s.aside stack created sent) = (g s).aside stack created sent)
    (hrows : (g s).rows = s.rows) (hsavepoints : (g s).savepoints = s.savepoints) :
    Beside (g s) (g u) := by
  obtain ⟨stack, created, sent, rfl⟩ := h.exists_eq
  have hself : g s = (g s).aside s.stack s.created s.sent := hg s.stack s.created s.sent
  have hstack : (g s).stack = s.stack := by rw [hself]; rfl
  have hcreated : (g s).created = s.created := by rw [hself]; rfl
  rw [hg]
  refine ⟨?_, ?_, rfl, ?_, ?_⟩
  · obtain ⟨root, hroot⟩ := h.stuck
    exact ⟨root, by rw [outline, hstack]; exact hroot⟩
  · rw [hsavepoints, path, hstack]
    exact h.named
  · rw [hrows]
    exact h.rows
  · rw [hcreated]
    exact h.created

/-- Other calls were made. -/
theorem withSent (h : Beside s u) (sent sent' : List Call) :
    Beside { s with sent } { u with sent := sent' } := by
  obtain ⟨_, _, _, rfl⟩ := h.exists_eq
  exact ⟨h.stuck, h.named, rfl, h.rows, h.created⟩

/-- Closing both of them leaves the same but for the number of transactions and the calls. -/
theorem close_eq (h : Beside s u) : u.close = s.close.aside [] u.created u.sent := by
  have hrows : u.lastingRows = s.lastingRows := by
    have husual : u.rows = s.rows := by rw [h.same]; rfl
    rw [h.stuck.lastingRows_eq]
    unfold lastingRows
    cases hroot : u.stack.getLast? with
    | none => exact husual
    | some t =>
        dsimp only
        rw [h.rows t hroot, husual, ite_self]
  unfold close
  rw [hrows, h.same]
  rfl

end Beside

end Session

namespace Exec

open Session

variable {α β : Type}

/-- What a computation reads in a stuck session it reads in one beside it, if it can. -/
def Reads (x : Exec α) : Prop :=
  ∀ s u, Beside s u → (∃ e, x s = (.error e, s)) ∨ ∃ a, x s = (.ok a, s) ∧ x u = (.ok a, u)

/-- What a computation does in a stuck session it does in one beside it, or it refuses before
anything has happened. -/
def Rides (x : Exec α) : Prop :=
  ∀ s u, Beside s u → (∃ e, x s = (.error e, s)) ∨ ∃ a t v, x s = (.ok a, t) ∧ x u = (.ok a, v) ∧
    Beside t v ∧ t.sent = s.sent ∧ v.sent = u.sent

theorem Reads.rides {x : Exec α} (h : Reads x) : Rides x := fun s u hsu =>
  (h s u hsu).imp_right fun ⟨a, hs, hu⟩ => ⟨a, s, u, hs, hu, hsu, rfl, rfl⟩

theorem reads_pure (a : α) : Reads (pure a) := fun _ _ _ => Or.inr ⟨a, rfl, rfl⟩

theorem reads_throw (e : Failure) : Reads (throw e : Exec α) := fun _ _ _ => Or.inl ⟨e, rfl⟩

theorem reads_object (id : Nat) : Reads (object id) := by
  rintro s u hsu
  obtain ⟨stack, created, sent, rfl⟩ := hsu.exists_eq
  rw [object_apply, object_apply,
    show Session.object? (s.aside stack created sent) id = s.object? id from rfl]
  cases s.object? id with
  | none => exact Or.inl ⟨_, rfl⟩
  | some o => exact Or.inr ⟨o, rfl, rfl⟩

theorem reads_named (name : String) : Reads (named name) := by
  rintro s u hsu
  obtain ⟨stack, created, sent, rfl⟩ := hsu.exists_eq
  unfold named
  rw [bind_apply, get_apply, bind_apply, get_apply]
  dsimp only
  rw [show (s.aside stack created sent).names = s.names from rfl]
  cases s.names.find? fun e => e.1 == name with
  | none => exact Or.inl ⟨_, rfl⟩
  | some e => exact Or.inr ⟨e.2, rfl, rfl⟩

theorem rides_bind {x : Exec α} {f : α → Exec β} (hx : Reads x) (hf : ∀ a, Rides (f a)) :
    Rides (x >>= f) := by
  intro s u hsu
  rcases hx s u hsu with ⟨e, hs⟩ | ⟨a, hs, hu⟩
  · exact Or.inl ⟨e, bind_of_error hs f⟩
  · rw [bind_of_ok hs, bind_of_ok hu]
    exact hf a s u hsu

/-- What is done next may depend on objects and marks. -/
theorem rides_get_bind {f : Session → Exec β} (hf : ∀ s, Rides (f s))
    (hsame : ∀ s stack created sent, f (Session.aside s stack created sent) = f s) :
    Rides (get >>= f) := by
  intro s u hsu
  rw [bind_apply, get_apply, bind_apply, get_apply]
  dsimp only
  have hu : f u = f s := by
    rw [hsu.same]
    exact hsame _ _ _ _
  rw [hu]
  exact hf s s u hsu

/-- The stuck session has its root transaction. -/
theorem rides_begin_bind {f : Unit → Exec β} (hf : Rides (f ())) :
    Rides (modify Session.begin >>= f) := by
  intro s u hsu
  rw [bind_apply, modify_apply, bind_apply, modify_apply]
  dsimp only
  rw [hsu.stuck.begin_eq, ← begin_sent u]
  exact hf s u.begin hsu.begin

theorem rides_modify {g : Session → Session}
    (hg : ∀ s stack created sent,
      g (Session.aside s stack created sent) = (g s).aside stack created sent)
    (hkeeps : ∀ s, (g s).rows = s.rows ∧ (g s).savepoints = s.savepoints) :
    Rides (modify g) := by
  intro s u hsu
  refine Or.inr ⟨(), g s, g u, rfl, rfl, hsu.map (hg s) (hkeeps s).1 (hkeeps s).2, ?_, ?_⟩
  · have hself : g s = (g s).aside s.stack s.created s.sent := hg s s.stack s.created s.sent
    rw [hself]
    rfl
  · rw [hsu.same, hg]
    rfl

/-- A change after which nothing more can be refused. -/
theorem rides_bind_modify {x : Exec α} {g : Session → Session} (hx : Rides x)
    (hg : Rides (modify g)) : Rides (do let _ ← x; modify g) := by
  intro s u hsu
  rcases hx s u hsu with ⟨e, hs⟩ | ⟨a, t, v, hs, hu, htv, ht, hv⟩
  · exact Or.inl ⟨e, bind_of_error hs _⟩
  · rw [bind_of_ok hs, bind_of_ok hu]
    rcases hg t v htv with ⟨e, hfails⟩ | ⟨b, t', v', ht', hv', htv', hsent, hsent'⟩
    · cases congrArg Prod.fst hfails
    · exact Or.inr ⟨b, t', v', ht', hv', htv', hsent.trans ht, hsent'.trans hv⟩

theorem rides_put (o : Obj) : Rides (put o) :=
  rides_modify (fun _ _ _ _ => rfl) fun _ => ⟨rfl, rfl⟩

end Exec

namespace Surroundings

open Exec Session

variable (c : Surroundings)

/-- Nothing can be read again in a stuck session. -/
theorem refresh_of_isStuck {s : Session} (hs : s.IsStuck) (o : Obj) :
    ∃ e, c.refresh o s = (.error e, s) := by
  obtain ⟨t, hstack, hstate⟩ := hs.stack
  obtain ⟨e, hrequire⟩ := requireActive_of_not_isActive (s := s) (by
    unfold isActive outline
    rw [hstack, List.map_singleton, List.head?_cons, Option.all_some, hstate]
    rfl)
  unfold refresh
  cases o.isAttached with
  | false => exact ⟨_, rfl⟩
  | true =>
      refine ⟨e, ?_⟩
      simp only [Bool.not_true, Bool.false_eq_true, if_false]
      rw [bind_apply, modify_apply, hs.begin_eq]
      dsimp only
      exact bind_of_error hrequire _

theorem reads_load (id : Nat) (needed : List String) : Reads (c.load id needed) := by
  intro s u hsu
  unfold load
  rcases reads_object id s u hsu with ⟨e, hs⟩ | ⟨o, hs, hu⟩
  · exact Or.inl ⟨e, bind_of_error hs _⟩
  · rw [bind_of_ok hs, bind_of_ok hu]
    split
    · obtain ⟨e, hrefresh⟩ := c.refresh_of_isStuck hsu.stuck o
      exact Or.inl ⟨e, bind_of_error hrefresh _⟩
    · exact Or.inr ⟨o, rfl, rfl⟩

/-- A change of the objects that opens a root transaction. -/
theorem rides_modify_begin {f : Session → Session} (g : Session → Session)
    (hf : ∀ s stack created, s.begin = s.aside stack created s.sent →
      f s = g (s.aside stack created s.sent))
    (hg : ∀ s stack created sent,
      g (Session.aside s stack created sent) = (g s).aside stack created sent)
    (hkeeps : ∀ s, (g s).rows = s.rows ∧ (g s).savepoints = s.savepoints) :
    Rides (modify f) := by
  have hbegin : (modify f : Exec Unit) = (do modify Session.begin; modify g) := by
    funext s
    rw [modify_apply, bind_apply, modify_apply]
    obtain ⟨stack, created, hbegin⟩ := s.begin_eq_aside
    dsimp only
    rw [modify_apply, hf s stack created hbegin, hbegin]
  rw [hbegin]
  exact rides_begin_bind (rides_modify hg hkeeps)

theorem rides_add (object entity : String) (values : Options) :
    Rides (c.add object entity values) := by
  unfold add
  rcases c.catalog.lineage entity with _ | ⟨e, rest⟩
  · exact (reads_throw _).rides
  · dsimp only
    cases e.model.table with
    | none => exact (reads_throw _).rides
    | some t =>
        dsimp only
        split
        · refine rides_modify_begin (fun s =>
            { s with
              objects := s.objects ++
                [{ Obj.create s.objects.length entity values with standing := .pending }]
              names := (object, s.objects.length) :: s.names
              fresh := s.fresh ++ [s.objects.length] }) (fun s stack created hbegin => ?_)
            (fun _ _ _ _ => rfl) fun _ => ⟨rfl, rfl⟩
          dsimp only
          rw [hbegin]
          rfl
        · exact (reads_throw _).rides

theorem rides_attach (o : Obj) : Rides (c.attach o) := by
  refine rides_begin_bind (rides_get_bind (fun s => ?_) fun _ _ _ _ => rfl)
  split
  · exact (reads_throw _).rides
  · exact rides_put _

theorem rides_readd (object : String) : Rides (c.readd object) := by
  refine rides_bind (reads_named object) fun id => rides_bind (reads_object id) fun o => ?_
  cases o.standing with
  | loose =>
      refine rides_modify_begin (fun s =>
        { s with
          objects := (s.modifyObject id fun o => { o with standing := .pending }).objects
          fresh := s.fresh ++ [id] }) (fun s stack created hbegin => ?_)
        (fun _ _ _ _ => rfl) fun _ => ⟨rfl, rfl⟩
      dsimp only
      rw [hbegin]
      rfl
  | pending => exact (reads_pure _).rides
  | removed => exact (reads_throw _).rides
  | stored =>
      refine rides_modify_begin (fun s => { s with marked := s.marked.filter fun m => m != id })
        (fun s stack created hbegin => ?_) (fun _ _ _ _ => rfl) fun _ => ⟨rfl, rfl⟩
      dsimp only
      rw [hbegin]
      rfl
  | displaced => exact c.rides_attach o
  | detached => exact c.rides_attach o

theorem rides_delete (object : String) : Rides (c.delete object) := by
  refine rides_bind (reads_named object) fun id => rides_bind (reads_object id) fun o => ?_
  split
  · exact (reads_throw _).rides
  · refine rides_get_bind (fun s => ?_) fun _ _ _ _ => rfl
    split
    · exact (reads_pure _).rides
    · exact rides_bind_modify (c.rides_attach o)
        (rides_modify (fun _ _ _ _ => rfl) fun _ => ⟨rfl, rfl⟩)

theorem rides_set (object attr : String) (value : Value) : Rides (c.set object attr value) := by
  refine rides_bind (reads_named object) fun id => rides_bind (reads_object id) fun o => ?_
  split
  · exact rides_put _
  · refine rides_bind (c.reads_load id _) fun p => ?_
    split
    · exact rides_begin_bind (rides_put _)
    · exact rides_put _

end Surroundings

namespace Instruction

/-- Whether an instruction is a search. -/
def isSearch : Instruction → Bool
  | .session (.search ..) => true
  | _ => false

end Instruction

namespace Running

variable (catalog : Catalog) (backend echo : Backend)

/-- Whether a stuck session passes over an instruction: it is in vain, or it is refused. -/
def passesOver (r : Running) (i : Instruction) : Bool :=
  i.isVain || !i.isSearch && !(r.step catalog backend i).1.toBool

/-- The instructions of a program that are not passed over. -/
def carried : Running → List Instruction → List Instruction
  | _, [] => []
  | r, i :: program =>
      let rest := carried (r.step catalog backend i).2 program
      if r.passesOver catalog backend i then rest else i :: rest

variable {catalog backend echo} {a b a' b' : Running}

/-- The same happens to a stuck session and to one beside it. -/
structure Shares (a b a' b' : Running) : Prop where
  beside : Session.Beside a'.session b'.session
  scopes : b'.scopes = a'.scopes
  sent : ∃ new, a'.session.sent = a.session.sent ++ new ∧ b'.session.sent = b.session.sent ++ new

theorem Shares.of_sent (hbeside : Session.Beside a'.session b'.session)
    (hscopes : b'.scopes = a'.scopes) (ha : a'.session.sent = a.session.sent)
    (hb : b'.session.sent = b.session.sent) : Shares a b a' b' :=
  ⟨hbeside, hscopes, [], ha.trans (List.append_nil _).symm, hb.trans (List.append_nil _).symm⟩

theorem Shares.trans {a'' b'' : Running} (h : Shares a b a' b') (k : Shares a' b' a'' b'') :
    Shares a b a'' b'' := by
  obtain ⟨new, ha, hb⟩ := h.sent
  obtain ⟨more, ha', hb'⟩ := k.sent
  refine ⟨k.beside, k.scopes, new ++ more, ?_, ?_⟩
  · rw [ha', ha, List.append_assoc]
  · rw [hb', hb, List.append_assoc]

/-- The backends go on to agree. -/
theorem Shares.agrees (h : Shares a b a' b')
    (hagrees : ∀ n, backend.Agrees echo a.session.sent b.session.sent n) (n : Nat) :
    backend.Agrees echo a'.session.sent b'.session.sent n := by
  obtain ⟨new, ha, hb⟩ := h.sent
  rw [ha, hb]
  exact (hagrees (new.length + n)).after new

variable (catalog backend echo) in
/-- A search makes no difference but for its call. -/
theorem step_search (r : Running) (entity : String) (text : Value) (options : Options) :
    ∃ new, (r.step catalog backend (.session (.search entity text options))).2 =
        { r with session := { r.session with sent := r.session.sent ++ new } } ∧
      ∀ r' : Running, backend.Agrees echo r.session.sent r'.session.sent new.length →
        (r'.step catalog echo (.session (.search entity text options))).2 =
          { r' with session := { r'.session with sent := r'.session.sent ++ new } } := by
  have hstep (r : Running) (backend : Backend) :
      (r.step catalog backend (.session (.search entity text options))).2 = { r with
        session := ((r.surroundings catalog backend).search entity text options r.session).2 } := by
    have hperform : ((r.surroundings catalog backend).perform (.search entity text options)
        r.session).2 =
        ((r.surroundings catalog backend).search entity text options r.session).2 := by
      rw [Surroundings.perform, Exec.bind_apply]
      rcases (r.surroundings catalog backend).search entity text options r.session with ⟨q, t⟩
      cases q with
      | ok page => rfl
      | error e => rfl
    rw [← hperform]
    rfl
  simp only [hstep, Surroundings.search, surroundings]
  cases catalog.searchable? entity with
  | none =>
      refine ⟨[], ?_, fun r' _ => ?_⟩
      · rw [List.append_nil]
        rfl
      · rw [List.append_nil]
        rfl
  | some x =>
      obtain ⟨new, hsent, hecho⟩ :=
        x.index.echoes_search x.client backend echo text options r.session.sent
      refine ⟨new, ?_, fun r' hagrees => ?_⟩
      · dsimp only
        rw [Exec.exchange_apply, hsent]
      · dsimp only
        rw [Exec.exchange_apply, hecho _ hagrees]

/-- What a stuck session does not refuse, a session beside it does as well. -/
theorem step_of_rides (h : Session.Beside a.session b.session) (hscopes : b.scopes = a.scopes)
    {command : Command} {x : Exec Unit} (hx : Exec.Rides x)
    (ha : (a.surroundings catalog backend).perform command = (do x; return none))
    (hb : (b.surroundings catalog echo).perform command = (do x; return none)) :
    (a.step catalog backend (.session command)).1.toBool = false ∧
        (a.step catalog backend (.session command)).2 = a ∨
      (a.step catalog backend (.session command)).1.toBool = true ∧
        Shares a b (a.step catalog backend (.session command)).2
          (b.step catalog echo (.session command)).2 := by
  unfold step
  dsimp only
  rw [ha, hb, Exec.bind_pure_apply, Exec.bind_pure_apply]
  rcases hx a.session b.session h with ⟨e, hs⟩ | ⟨u, t, v, hs, hu, htv, ht, hv⟩
  · rw [hs]
    exact Or.inl ⟨rfl, rfl⟩
  · rw [hs, hu]
    exact Or.inr ⟨rfl, .of_sent htv hscopes ht hv⟩

/-- A stuck session passes over an instruction and nothing happens, or the same happens in a
session beside it. -/
theorem step_beside (h : Session.Beside a.session b.session) (hscopes : b.scopes = a.scopes)
    (hagrees : ∀ n, backend.Agrees echo a.session.sent b.session.sent n) {i : Instruction}
    (hi : i ≠ .session .close) :
    a.passesOver catalog backend i = true ∧ (a.step catalog backend i).2 = a ∨
      a.passesOver catalog backend i = false ∧
        Shares a b (a.step catalog backend i).2 (b.step catalog echo i).2 := by
  have hvain (hi : i.isVain = true) :
      a.passesOver catalog backend i = true ∧ (a.step catalog backend i).2 = a :=
    ⟨by rw [passesOver, hi, Bool.true_or], step_of_isVain catalog backend h.stuck h.named hi⟩
  cases i with
  | setStanding enabled =>
      exact Or.inr ⟨rfl, .of_sent h (congrArg (·.setStanding enabled) hscopes) rfl rfl⟩
  | enter name enabled =>
      exact Or.inr ⟨rfl, .of_sent h (congrArg (·.enter name enabled) hscopes) rfl rfl⟩
  | leave name => exact Or.inr ⟨rfl, .of_sent h (congrArg (·.leave name) hscopes) rfl rfl⟩
  | session command =>
      have hedit {x : Exec Unit} (hx : Exec.Rides x)
          (ha : (a.surroundings catalog backend).perform command = (do x; return none))
          (hb : (b.surroundings catalog echo).perform command = (do x; return none))
          (hpasses : a.passesOver catalog backend (.session command) =
            !(a.step catalog backend (.session command)).1.toBool) :
          a.passesOver catalog backend (.session command) = true ∧
              (a.step catalog backend (.session command)).2 = a ∨
            a.passesOver catalog backend (.session command) = false ∧
              Shares a b (a.step catalog backend (.session command)).2
                (b.step catalog echo (.session command)).2 := by
        rw [hpasses]
        exact (step_of_rides h hscopes hx ha hb).imp
          (And.imp_left fun hs => by rw [hs, Bool.not_false])
          (And.imp_left fun hs => by rw [hs, Bool.not_true])
      cases command with
      | add object entity values =>
          exact hedit ((a.surroundings catalog backend).rides_add object entity values) rfl rfl rfl
      | readd object =>
          exact hedit ((a.surroundings catalog backend).rides_readd object) rfl rfl rfl
      | set object attr value =>
          exact hedit ((a.surroundings catalog backend).rides_set object attr value) rfl rfl rfl
      | delete object =>
          exact hedit ((a.surroundings catalog backend).rides_delete object) rfl rfl rfl
      | search entity text options =>
          obtain ⟨new, ha, hb⟩ := step_search catalog backend echo a entity text options
          refine Or.inr ⟨rfl, ?_⟩
          rw [ha, hb b (hagrees _)]
          exact ⟨h.withSent _ _, hscopes, new, rfl, rfl⟩
      | close => exact absurd rfl hi
      | _ => exact Or.inl (hvain rfl)

/-- While a session is stuck, a program does to it what the part that is not passed over does to
a session beside it. -/
theorem run_beside (h : Session.Beside a.session b.session) (hscopes : b.scopes = a.scopes)
    (hagrees : ∀ n, backend.Agrees echo a.session.sent b.session.sent n)
    {program : List Instruction} (hprogram : ∀ i ∈ program, i ≠ .session .close) :
    Shares a b (a.run catalog backend program)
      (b.run catalog echo (a.carried catalog backend program)) := by
  induction program generalizing a b with
  | nil => exact .of_sent h hscopes rfl rfl
  | cons i program ih =>
      have hrest : ∀ k ∈ program, k ≠ .session .close := fun k hk =>
        hprogram k (List.mem_cons_of_mem i hk)
      rcases step_beside h hscopes hagrees (hprogram i List.mem_cons_self) with
        ⟨hpassed, hsame⟩ | ⟨hcarried, hshares⟩
      · have hrun := ih h hscopes hagrees hrest
        rw [carried, if_pos hpassed, hsame]
        rw [run, List.foldl_cons, hsame]
        exact hrun
      · rw [carried, hcarried, if_neg Bool.false_ne_true]
        exact hshares.trans (ih hshares.beside hshares.scopes (hshares.agrees hagrees) hrest)

end Running

end Typeahead
