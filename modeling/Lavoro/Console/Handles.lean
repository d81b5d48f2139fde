import Lavoro.Console.Mode
import Lavoro.File.Handles

/-!
# The handles of the console's commands

A command constructs its files and works on them without having asked whether they are open. A
handle that is missing is met by `Delete`, `SetPosition` and the destructor, which test it, or by
`Read` and `Write`, which do not: `CommandOpens` says for which files a command needs one.
-/

namespace Lavoro.Console
open Lib LFile

variable {Node : Type} [DecidableEq Node]

/-! ## `ls`, `cat`, `rm` and `mkdir` -/

section Reading

variable {fw : Firmware Node} {path : Str16} {w : World Node}

omit [DecidableEq Node] in
/-- A directory that is open. -/
theorem throughHandle_world {ρ : Type} (turn : Enumeration ρ → Turn (Enumeration ρ) (Enumeration ρ))
    (a : Handle Node) (turns : Nat) (s : Enumeration ρ × World Node) :
    (Loop.after (throughHandle turn (some a)) turns s).state.2 = s.2 := by
  have step : ∀ t : Enumeration ρ × World Node, t.2 = s.2 →
      (throughHandle turn (some a) t).state.2 = s.2 := by
    intro t same
    unfold throughHandle
    split
    · exact same
    · exact (congrArg Prod.snd (Turn.state_map _ _)).trans same
  exact Loop.after_keeps step turns rfl

omit [DecidableEq Node] in
/-- A directory that is not. -/
theorem throughHandle_missing {ρ : Type} (turn : Enumeration ρ → Turn (Enumeration ρ) (Enumeration ρ))
    {s : Enumeration ρ × World Node} (going : s.1.szBufferSize ≠ 0) :
    (Loop.after (throughHandle turn (none : Option (Handle Node))) 1 s).state.2.trapped = true := by
  simp [Loop.after, throughHandle, going, Turn.state, World.trap]

/-- **A loop over the directory at `path`**, for the entries that are unread when it starts. -/
theorem directory_neverTraps {ρ : Type} (entries : Node → List DirEntry)
    (turn : List DirEntry → Enumeration ρ → Turn (Enumeration ρ) (Enumeration ρ))
    (start : List DirEntry → Enumeration ρ) (going : ∀ unread, (start unread).szBufferSize ≠ 0)
    (h : w.trapped = false) :
    NeverTraps (fun turns =>
      let file := construct fw path false w
      let unread := match file.1.handle with
        | some a => entries a.node
        | none => []
      (Loop.after (throughHandle (turn unread) file.1.handle) turns (start unread, file.2)).state.2) ↔
      Opens fw path false w := by
  apply neverTraps_iff ?_ 1 ?_
  · intro opens turns
    obtain ⟨a, handle⟩ := Option.isSome_iff_exists.1 (construct_isSome.2 opens)
    simp only [handle, throughHandle_world]
    exact construct_trapped.trans h
  · intro missing
    obtain ⟨i, constructed⟩ := construct_missing missing
    simp only [constructed]
    exact throughHandle_missing _ (going [])

theorem ls_neverTraps (entries : Node → List DirEntry) (szBuffer : DirEntry) (h : w.trapped = false) :
    NeverTraps (fun turns => (ls fw entries szBuffer turns path w).state) ↔ Opens fw path false w := by
  simp only [ls, Turn.state_map, LFile.destroy]
  exact directory_neverTraps entries (fun _ => lsTurn) (lsStart szBuffer) (fun _ => Nat.succ_ne_zero 254) h

theorem catTurn_kept {K : Option (Handle Node) × World Node → Prop} (kept : Kept fw K)
    (s : LFile Node × World Node) (h : K (s.1.handle, s.2)) :
    K ((catTurn fw s).state.1.handle, (catTurn fw s).state.2) := by
  have shown := current_kept kept (next_kept kept h)
  unfold catTurn
  split
  · exact h
  · simp only
    split
    · exact current_kept kept shown
    · exact shown

/-- The first turn of `cat` reads. -/
theorem catTurn_missing (buffer : Buffer readerBufferSize) (writer : LWriter) (w : World Node) :
    (catTurn fw (⟨Reader.construct buffer, writer, none⟩, w)).state.2.trapped = true := by
  have shown := current_kept (trapped_kept fw) (s := next fw (⟨Reader.construct buffer, writer, none⟩, w))
    (next_missing fw buffer writer w)
  unfold catTurn
  split
  · rename_i ended
    exact absurd ended Bool.false_ne_true
  · simp only
    split
    · exact current_kept (trapped_kept fw) shown
    · exact shown

theorem cat_neverTraps (h : w.trapped = false) :
    NeverTraps (fun turns => (cat fw turns path w).state) ↔ Opens fw path false w := by
  apply neverTraps_iff ?_ 1 ?_
  · intro opens turns
    have present := Loop.after_keeps (catTurn_kept (present_kept fw)) turns (construct_present opens h)
    simp only [cat, Turn.state_map, LFile.destroy]
    exact present.2
  · intro missing
    obtain ⟨i, constructed⟩ := construct_missing missing
    simp only [cat, Turn.state_map, LFile.destroy, constructed]
    exact Loop.after_makes (catTurn_kept (trapped_kept fw)) 0 (catTurn_missing _ _ _)

/-! ## `addline` -/

theorem countTurn_kept {K : Option (Handle Node) × World Node → Prop} (kept : Kept fw K)
    (x : Nat × LFile Node × World Node) (h : K (x.2.1.handle, x.2.2)) :
    K ((countTurn fw x).state.2.1.handle, (countTurn fw x).state.2.2) := by
  unfold countTurn
  split
  · exact h
  · exact next_kept kept h

theorem append_kept {K : Option (Handle Node) × World Node → Prop} (kept : Kept fw K) (text : Str16)
    (position : Nat) {s : LFile Node × World Node} (h : K (s.1.handle, s.2)) :
    K ((append fw text position s).1.handle, (append fw text position s).2) :=
  flush_kept kept (writeAll_kept kept _ (writeUnits_kept kept _ (setPosition_kept kept _ h)))

/-- What the calls of `addline` keep, from behind the first `Next()` on. -/
theorem addline_kept {K : Option (Handle Node) × World Node → Prop} (kept : Kept fw K) (turns : Nat)
    (text : Str16) (h : K ((next fw (construct fw path true w)).1.handle, (next fw (construct fw path true w)).2)) :
    ∃ handle, K (handle, (addline fw turns path text w).state) := by
  have counted := Loop.after_keeps (countTurn_kept kept) turns (s := (0, next fw (construct fw path true w))) h
  unfold addline
  simp only
  cases after : Loop.after (countTurn fw) turns (0, next fw (construct fw path true w)) with
  | again x =>
    rw [after] at counted
    exact ⟨_, counted⟩
  | leave x =>
    rw [after] at counted
    exact ⟨_, append_kept kept text x.1 counted⟩

theorem addline_neverTraps (text : Str16) (h : w.trapped = false) :
    NeverTraps (fun turns => (addline fw turns path text w).state) ↔ Opens fw path true w := by
  apply neverTraps_iff ?_ 0 ?_
  · intro opens turns
    obtain ⟨_, present⟩ := addline_kept (present_kept fw) turns text
      (next_kept (present_kept fw) (construct_present opens h))
    exact present.2
  · intro missing
    obtain ⟨_, trapped⟩ := addline_kept (trapped_kept fw) 0 text (next_construct_missing missing)
    exact trapped

theorem rm_trapped : (rm fw path w).trapped = w.trapped :=
  (delete_trapped fw _).trans construct_trapped

theorem mkdir_trapped : (mkdir fw path w).trapped = w.trapped :=
  construct_trapped

end Reading

/-! ## `cp` and `mv` -/

/-- The files of a copy open, or the source does and has nothing that could be written. -/
def CopyOpens (fw : Firmware Node) (src dst : Str16) (w : World Node) : Prop :=
  Opens fw src false w ∧
    (Opens fw dst true { w with opens := w.opens + 1 } ∨
      w.content (fw.nodeOf src) = [] ∨ fw.reads w.reads = .fails)

/-- Both files of a copy are open, and no call has trapped. -/
structure BothOpen (st : Copying Node) : Prop where
  file : st.file.handle.isSome
  fileCopy : st.fileCopy.handle.isSome
  fine : st.world.trapped = false

section Copying

variable {fw : Firmware Node} {src dst : Str16} {w : World Node} {st : Copying Node}

theorem copyTurn_open (fw : Firmware Node) (st : Copying Node) (h : BothOpen st) : BothOpen (copyTurn fw st).state := by
  unfold copyTurn
  split
  · exact h
  · have shown := current_kept (present_kept fw) (s := (st.file, st.world)) ⟨h.file, h.fine⟩
    let c := current fw (st.file, st.world)
    have wrote := write_kept (present_kept fw) (toByte c.1) (s := (st.fileCopy, c.2.2)) ⟨h.fileCopy, shown.2⟩
    have moved := next_kept (present_kept fw)
      (s := (c.2.1, (write fw (toByte c.1) (st.fileCopy, c.2.2)).2)) ⟨shown.1, wrote.2⟩
    exact ⟨moved.1, wrote.1, moved.2⟩

/-- The calls on the two files keep what has trapped. -/
theorem copyTurn_trapped (fw : Firmware Node) (st : Copying Node) (h : st.world.trapped = true) :
    (copyTurn fw st).state.world.trapped = true := by
  unfold copyTurn
  split
  · exact h
  · have shown := current_kept (trapped_kept fw) (s := (st.file, st.world)) h
    let c := current fw (st.file, st.world)
    have wrote := write_kept (trapped_kept fw) (toByte c.1) (s := (st.fileCopy, c.2.2)) shown
    exact next_kept (trapped_kept fw) (s := (c.2.1, (write fw (toByte c.1) (st.fileCopy, c.2.2)).2)) wrote

/-- A copy whose second file is missing: it has trapped, or so many bytes wait to be written. -/
def Waiting (k : Nat) (st : Copying Node) : Prop :=
  st.world.trapped = true ∨ st.fileCopy.handle = none ∧ k ≤ st.fileCopy.writer.pending.length

/-- One turn adds a byte to them. -/
theorem copyTurn_waiting (fw : Firmware Node) {k : Nat} (h : Waiting k st) (more : Reader.atEnd st.file.reader = false) :
    ∃ st', copyTurn fw st = .again st' ∧ Waiting (k + 1) st' := by
  obtain ⟨file, fileCopy, world⟩ := st
  have step := copyTurn_trapped fw ⟨file, fileCopy, world⟩
  unfold copyTurn at step ⊢
  rw [if_neg (by rw [more]; exact Bool.false_ne_true)] at step ⊢
  refine ⟨_, rfl, ?_⟩
  rcases h with trapped | ⟨missing, waiting⟩
  · exact .inl (step trapped)
  · let c := current fw (file, world)
    by_cases full : fileCopy.writer.pending.length = writerBufferSize
    · have wrote : (write fw (toByte c.1) (fileCopy, c.2.2)).2.trapped = true := by
        rw [write_full full]
        simp only at missing
        rw [missing]
        rfl
      exact .inl (next_kept (trapped_kept fw) (s := (c.2.1, (write fw (toByte c.1) (fileCopy, c.2.2)).2)) wrote)
    · obtain ⟨writer, pending, room⟩ := write_room fw (toByte c.1) c.2.2 full
      refine .inr ⟨?_, ?_⟩
      · show (write fw (toByte c.1) (fileCopy, c.2.2)).1.handle = none
        rw [room]
        exact missing
      · show k + 1 ≤ (write fw (toByte c.1) (fileCopy, c.2.2)).1.writer.pending.length
        rw [room, pending, List.length_append, List.length_singleton]
        exact Nat.succ_le_succ waiting

/-- `n` turns that do not come to the end add `n` bytes. -/
theorem copyLoop_waiting (fw : Firmware Node) (n : Nat) : ∀ {k : Nat} {st : Copying Node}, Waiting k st →
    Waiting k (Loop.after (copyTurn fw) n st).state ∧
      ∀ st', Loop.after (copyTurn fw) n st = .again st' → Waiting (k + n) st' := by
  induction n with
  | zero =>
    intro k st h
    refine ⟨h, fun st' again => ?_⟩
    cases again
    exact h
  | succ n ih =>
    intro k st h
    cases more : Reader.atEnd st.file.reader with
    | true =>
      have stop : copyTurn fw st = .leave st := by simp [copyTurn, more]
      rw [Loop.after_leave stop]
      refine ⟨h, fun st' again => ?_⟩
      cases again
    | false =>
      obtain ⟨st', turn, waiting⟩ := copyTurn_waiting fw h more
      obtain ⟨state, again⟩ := ih waiting
      rw [Loop.after_again turn, show k + (n + 1) = k + 1 + n by omega]
      refine ⟨?_, again⟩
      rcases state with trapped | ⟨missing, long⟩
      · exact .inl trapped
      · exact .inr ⟨missing, Nat.le_of_succ_le long⟩

variable {finish : LFile Node × World Node → LFile Node × World Node}

/-- What is behind the loop keeps what has trapped. -/
theorem copyThen_trapped (same : ∀ s, (finish s).2.trapped = s.2.trapped) {turns : Nat}
    (h : (Loop.after (copyTurn fw) turns (openBoth fw src dst w)).state.world.trapped = true) :
    (copyThen fw turns finish src dst w).state.trapped = true := by
  unfold copyThen
  cases after : Loop.after (copyTurn fw) turns (openBoth fw src dst w) with
  | again st =>
    rw [after] at h
    exact h
  | leave st =>
    rw [after] at h
    exact (same _).trans (flush_kept (trapped_kept fw) (s := (st.fileCopy, st.world)) h)

/-- A copy between two files that open. -/
theorem copyThen_open (same : ∀ s, (finish s).2.trapped = s.2.trapped) (turns : Nat)
    (h : BothOpen (openBoth fw src dst w)) : (copyThen fw turns finish src dst w).state.trapped = false := by
  have copied := Loop.after_keeps (copyTurn_open fw) turns h
  unfold copyThen
  cases after : Loop.after (copyTurn fw) turns (openBoth fw src dst w) with
  | again st =>
    rw [after] at copied
    exact copied.fine
  | leave st =>
    rw [after] at copied
    exact (same _).trans (flush_kept (present_kept fw) (s := (st.fileCopy, st.world)) ⟨copied.fileCopy, copied.fine⟩).2

/-- The files of a copy whose second file does not open. -/
theorem openBoth_missing (source : Opens fw src false w) (missing : ¬ Opens fw dst true { w with opens := w.opens + 1 }) :
    ∃ i, openBoth fw src dst w =
      { file := (next fw (⟨Reader.construct (fw.heap w.opens), Writer.empty, some ⟨fw.nodeOf src, 0⟩⟩,
          { w with opens := i })).1
        fileCopy := ⟨Reader.construct (fw.heap (w.opens + 1)), Writer.empty, none⟩
        world := (next fw (⟨Reader.construct (fw.heap w.opens), Writer.empty, some ⟨fw.nodeOf src, 0⟩⟩,
          { w with opens := i })).2 } := by
  obtain ⟨i, constructed⟩ := construct_missing missing
  refine ⟨i, ?_⟩
  unfold openBoth
  rw [construct_opened source]
  simp only [constructed]

theorem openBoth_open (source : Opens fw src false w) (copy : Opens fw dst true { w with opens := w.opens + 1 })
    (h : w.trapped = false) : BothOpen (openBoth fw src dst w) := by
  unfold openBoth
  rw [construct_opened source]
  obtain ⟨fileCopy, fine⟩ := construct_present copy h
  have primed := next_kept (present_kept fw)
    (s := (⟨Reader.construct (fw.heap w.opens), Writer.empty, some ⟨fw.nodeOf src, 0⟩⟩,
      (construct fw dst true { w with opens := w.opens + 1 }).2)) ⟨rfl, fine⟩
  exact ⟨primed.1, fileCopy, primed.2⟩

/-- A copy of nothing to a file that does not open. -/
theorem copyThen_nothing (same : ∀ s, (finish s).2.trapped = s.2.trapped) (source : Opens fw src false w)
    (missing : ¬ Opens fw dst true { w with opens := w.opens + 1 })
    (nothing : w.content (fw.nodeOf src) = [] ∨ fw.reads w.reads = .fails) (h : w.trapped = false) (turns : Nat) :
    (copyThen fw turns finish src dst w).state.trapped = false := by
  obtain ⟨i, opened⟩ := openBoth_missing source missing
  have ended := (next_atEnd_iff fw (fw.heap w.opens) Writer.empty { w with opens := i } (fw.nodeOf src)).2 nothing
  have primed := next_kept (present_kept fw)
    (s := (⟨Reader.construct (fw.heap w.opens), Writer.empty, some ⟨fw.nodeOf src, 0⟩⟩, { w with opens := i }))
    ⟨rfl, h⟩
  unfold copyThen
  rw [opened]
  cases turns with
  | zero => exact primed.2
  | succ turns =>
    rw [Loop.after_leave (by rw [copyTurn, if_pos ended])]
    apply (same _).trans
    show (flush fw (_, _)).2.trapped = false
    rw [flush_none rfl]
    exact primed.2

/-- A copy without a source. -/
theorem copyThen_noSource (same : ∀ s, (finish s).2.trapped = s.2.trapped) (missing : ¬ Opens fw src false w)
    (turns : Nat) : (copyThen fw turns finish src dst w).state.trapped = true := by
  obtain ⟨i, constructed⟩ := construct_missing missing
  apply copyThen_trapped same
  apply Loop.after_keeps (copyTurn_trapped fw)
  unfold openBoth
  rw [constructed]
  exact next_missing _ _ _ _

/-- A copy of something to a file that does not open. -/
theorem copyThen_noDestination (same : ∀ s, (finish s).2.trapped = s.2.trapped) (source : Opens fw src false w)
    (missing : ¬ Opens fw dst true { w with opens := w.opens + 1 })
    (something : ¬ (w.content (fw.nodeOf src) = [] ∨ fw.reads w.reads = .fails)) :
    (copyThen fw 129 finish src dst w).state.trapped = true := by
  obtain ⟨i, opened⟩ := openBoth_missing source missing
  have start : Waiting 0 (openBoth fw src dst w) := by
    rw [opened]
    exact .inr ⟨rfl, Nat.zero_le _⟩
  have more : Reader.atEnd (openBoth fw src dst w).file.reader = false := by
    have first := next_atEnd_iff fw (fw.heap w.opens) Writer.empty { w with opens := i } (fw.nodeOf src)
    rw [opened, ← Bool.not_eq_true]
    exact fun ended => something (first.1 ended)
  obtain ⟨st, turn, one⟩ := copyTurn_waiting fw start more
  obtain ⟨state, again⟩ := copyLoop_waiting fw 128 one
  rw [← Loop.after_again turn] at state again
  rcases state with trapped | ⟨closed, waiting⟩
  · exact copyThen_trapped same trapped
  · cases after : Loop.after (copyTurn fw) (128 + 1) (openBoth fw src dst w) with
    | again st' =>
      -- more bytes would wait than the buffer has room for
      have bound : st'.fileCopy.writer.pending.length ≤ 128 := st'.fileCopy.writer.bound
      rcases again st' after with trapped | ⟨-, long⟩
      · exact copyThen_trapped same (by rw [after]; exact trapped)
      · omega
    | leave st' =>
      rw [after] at closed waiting
      have closed : st'.fileCopy.handle = none := closed
      have some : st'.fileCopy.writer.pending ≠ [] := List.ne_nil_of_length_pos waiting
      unfold copyThen
      rw [after]
      apply (same _).trans
      show (flush fw (st'.fileCopy, st'.world)).2.trapped = true
      rw [flush_some some, closed]
      rfl

/-- **A copy.** -/
theorem copyThen_neverTraps (same : ∀ s, (finish s).2.trapped = s.2.trapped) (h : w.trapped = false) :
    NeverTraps (fun turns => (copyThen fw turns finish src dst w).state) ↔ CopyOpens fw src dst w := by
  apply neverTraps_iff ?_ 129 ?_
  · rintro ⟨source, others⟩ turns
    by_cases copy : Opens fw dst true { w with opens := w.opens + 1 }
    · exact copyThen_open same turns (openBoth_open source copy h)
    · exact copyThen_nothing same source copy (others.resolve_left copy) h turns
  · intro missing
    by_cases source : Opens fw src false w
    · exact copyThen_noDestination same source (fun copy => missing ⟨source, .inl copy⟩)
        fun nothing => missing ⟨source, .inr nothing⟩
    · exact copyThen_noSource same source 129

end Copying

/-! ## Rounds -/

namespace ConsoleState

/-- The files that `cp` and `mv` name open. -/
def FilesOpen (fw : Firmware Node) (cut : Str16 → Str16) (st : ConsoleState Node) : Prop :=
  let first := (st.holding (cutFrom cut 3 st.szLine.units)).locateAt 3
  let second := first.locateAt (strLen first.szLine.units + 1)
  CopyOpens fw first.szPath.str second.szPath.str st.world

/-- The file that `addline` names opens. -/
def TextOpens (fw : Firmware Node) (st : ConsoleState Node) : Prop :=
  Opens fw ((st.holding (cutFrom cutFirst 8 st.szLine.units)).locateAt 8).szPath.str true st.world

/-- The files open that the command in `szLine` reads or writes. -/
def CommandOpens (env : Environment Node) (st : ConsoleState Node) : Prop :=
  match dispatch st.szLine.units with
  | some .ls => Opens env.fw st.szCurrentPath.str false st.world
  | some .cat => Opens env.fw (st.locateAt 4).szPath.str false st.world
  | some .cp => st.FilesOpen env.fw cutFirst
  | some .mv => st.FilesOpen env.fw cutAll
  | some .addline => st.TextOpens env.fw
  | some .batch => Opens env.fw (st.locateAt 6).szPath.str false st.world
  | _ => True

/-- No call has trapped, and the batches can be read. -/
structure Steady (st : ConsoleState Node) : Prop where
  fine : st.world.trapped = false
  batches : ∀ batch ∈ st.batches, batch.handle.isSome

section Commands

variable {env : Environment Node} {turns : Nat} {st : ConsoleState Node}

/-- **A command** other than `batch`. -/
theorem exec_neverTraps (h : st.world.trapped = false) (other : dispatch st.szLine.units ≠ some .batch) :
    NeverTraps (fun turns => (exec env turns st).1.world) ↔ CommandOpens env st := by
  have unchanged : NeverTraps (fun _ => st.world) ↔ True := iff_of_true (fun _ => h) trivial
  unfold exec CommandOpens
  cases runs : dispatch st.szLine.units with
  | none => exact unchanged
  | some c =>
    cases c with
    | box => exact unchanged
    | pyramids => exact unchanged
    | antTSP => exact unchanged
    | ls =>
      simp only [finish_world]
      exact ls_neverTraps _ _ h
    | cd => exact unchanged
    | cwd => exact unchanged
    | cat =>
      simp only [finish_world]
      exact cat_neverTraps h
    | connect => exact unchanged
    | accept => exact unchanged
    | filldemo => exact unchanged
    | printmodes => exact unchanged
    | quit => exact unchanged
    | end_ => exact unchanged
    | rm =>
      simp only [finish_world]
      exact iff_of_true (fun _ => rm_trapped.trans h) trivial
    | cp =>
      simp only [copyFiles, finish_world]
      exact copyThen_neverTraps (fun _ => rfl) h
    | mv =>
      simp only [copyFiles, finish_world]
      exact copyThen_neverTraps (delete_trapped env.fw) h
    | addline =>
      simp only [addText, finish_world]
      exact addline_neverTraps _ h
    | mkdir =>
      simp only [finish_world]
      exact iff_of_true (fun _ => mkdir_trapped.trans h) trivial
    | batch => exact absurd runs other

theorem exec_batches (other : dispatch st.szLine.units ≠ some .batch) :
    (exec env turns st).1.batches = st.batches := by
  unfold exec
  cases runs : dispatch st.szLine.units with
  | none => rfl
  | some c =>
    cases c <;> first
      | exact absurd runs other
      | rfl
      | exact finish_batches _ _

/-- What reading a line and the end of a batch keep is kept by what follows a command. -/
theorem round_keeps {P : ConsoleState Node → Prop} {typed : Str16}
    (read : ∀ st, P st → P (st.readNext env.fw turns typed).1)
    (pop : ∀ st batches, P st → batches ⊆ st.batches → P { st with batches })
    (h : P (exec env turns st).1) : P (round env turns typed st).1 := by
  have ended : ∀ st : ConsoleState Node, P st → P st.leaveEnded :=
    fun st h => pop st _ h (List.dropWhile_suffix _).subset
  unfold round
  split
  · rename_i st' ran
    rw [ran] at h
    exact h
  · rename_i st' ran
    rw [ran] at h
    exact read _ (ended _ h)
  · rename_i st' ran
    rw [ran] at h
    exact read _ h
  · rename_i st' ran
    rw [ran] at h
    split
    · exact h
    · rename_i batch outer batches
      have popped := pop st' outer h (by rw [batches]; exact List.subset_cons_self batch outer)
      exact read _ (ended _ popped)

omit [DecidableEq Node] in
/-- What reading a line off the innermost batch leaves. -/
theorem readNext_batch (fw : Firmware Node) (turns : Nat) (typed : Str16) {batch : LFile Node}
    {outer : List (LFile Node)} (inner : st.batches = batch :: outer) :
    (st.readNext fw turns typed).1.world = (readLine fw turns (batch, st.world)).state.2.2 ∧
      (st.readNext fw turns typed).1.batches = (readLine fw turns (batch, st.world)).state.2.1 :: outer := by
  unfold readNext
  rw [inner]
  simp only
  cases readLine fw turns (batch, st.world) with
  | again x => exact ⟨rfl, rfl⟩
  | leave x => exact ⟨rfl, rfl⟩

omit [DecidableEq Node] in
theorem readNext_typed (fw : Firmware Node) (turns : Nat) (typed : Str16) (inner : st.batches = []) :
    (st.readNext fw turns typed).1.world = st.world ∧ (st.readNext fw turns typed).1.batches = [] := by
  unfold readNext
  rw [inner]
  exact ⟨rfl, rfl⟩

theorem readNext_steady (typed : Str16) (st : ConsoleState Node) (h : Steady st) :
    Steady (st.readNext env.fw turns typed).1 := by
  cases inner : st.batches with
  | nil =>
    obtain ⟨world, batches⟩ := readNext_typed env.fw turns typed inner
    refine ⟨by rw [world]; exact h.fine, fun batch inside => ?_⟩
    rw [batches] at inside
    cases inside
  | cons batch outer =>
    obtain ⟨world, batches⟩ := readNext_batch env.fw turns typed inner
    have held := h.batches
    rw [inner] at held
    obtain ⟨first, others⟩ := List.forall_mem_cons.1 held
    have present := readLine_kept (present_kept env.fw) turns (s := (batch, st.world)) ⟨first, h.fine⟩
    refine ⟨by rw [world]; exact present.2, ?_⟩
    rw [batches]
    exact List.forall_mem_cons.2 ⟨present.1, others⟩

theorem readNext_trapped (typed : Str16) (st : ConsoleState Node) (h : st.world.trapped = true) :
    (st.readNext env.fw turns typed).1.world.trapped = true := by
  cases inner : st.batches with
  | nil =>
    rw [(readNext_typed env.fw turns typed inner).1]
    exact h
  | cons batch outer =>
    rw [(readNext_batch env.fw turns typed inner).1]
    exact readLine_kept (trapped_kept env.fw) turns (s := (batch, st.world)) h

theorem exec_batch (runs : dispatch st.szLine.units = some .batch) :
    exec env turns st = st.enterBatch env.fw := by
  unfold exec
  rw [runs]

omit [DecidableEq Node] in
theorem commandOpens_batch (runs : dispatch st.szLine.units = some .batch) :
    CommandOpens env st = Opens env.fw (st.locateAt 6).szPath.str false st.world := by
  unfold CommandOpens
  rw [runs]

theorem exec_steady (h : Steady st) (opens : CommandOpens env st) (turns : Nat) :
    Steady (exec env turns st).1 := by
  by_cases runs : dispatch st.szLine.units = some .batch
  · rw [commandOpens_batch runs] at opens
    rw [exec_batch runs]
    obtain ⟨handle, fine⟩ := construct_present opens h.fine
    exact ⟨fine, List.forall_mem_cons.2 ⟨handle, h.batches⟩⟩
  · refine ⟨(exec_neverTraps h.fine runs).2 opens turns, ?_⟩
    rw [exec_batches runs]
    exact h.batches

/-- A round whose files open. -/
theorem round_steady (typed : Str16) (h : Steady st) (opens : CommandOpens env st) (turns : Nat) :
    Steady (round env turns typed st).1 :=
  round_keeps (readNext_steady typed)
    (fun _ _ h fewer => ⟨h.fine, fun batch inside => h.batches batch (fewer inside)⟩) (exec_steady h opens turns)

/-- The first line of a batch whose handle is missing. -/
theorem readNext_missing (fw : Firmware Node) (typed : Str16) {buffer : Buffer readerBufferSize} {writer : LWriter}
    {outer : List (LFile Node)} (inner : st.batches = ⟨Reader.construct buffer, writer, none⟩ :: outer) :
    (st.readNext fw 1 typed).1.world.trapped = true := by
  rw [(readNext_batch fw 1 typed inner).1]
  exact readLine_missing fw buffer writer 0 st.world

/-- A round that enters a batch which does not open. -/
theorem round_missingBatch (typed : Str16) (runs : dispatch st.szLine.units = some .batch)
    (missing : ¬ Opens env.fw (st.locateAt 6).szPath.str false st.world) :
    (round env 1 typed st).1.world.trapped = true := by
  obtain ⟨i, constructed⟩ := construct_missing missing
  unfold round
  rw [exec_batch runs, enterBatch]
  apply readNext_missing
  exact congrArg (· :: st.batches) (congrArg Prod.fst constructed)

theorem round_trapped (typed : Str16) (h : (exec env turns st).1.world.trapped = true) :
    (round env turns typed st).1.world.trapped = true :=
  round_keeps (P := fun st => st.world.trapped = true) (readNext_trapped typed) (fun _ _ h _ => h) h

/-- **A round** makes no call through a missing handle exactly if the files of its command open. -/
theorem round_neverTraps (typed : Str16) (h : Steady st) :
    NeverTraps (fun turns => (round env turns typed st).1.world) ↔ CommandOpens env st := by
  refine ⟨fun never => ?_, fun opens turns => (round_steady typed h opens turns).fine⟩
  by_cases runs : dispatch st.szLine.units = some .batch
  · rw [commandOpens_batch runs]
    exact provided_of_fine (never 1) (round_missingBatch typed runs)
  · refine (exec_neverTraps h.fine runs).1 fun turns => Bool.eq_false_iff.2 fun trapped => ?_
    have trapped := round_trapped typed trapped
    rw [never turns] at trapped
    cases trapped

end Commands

end ConsoleState

end Lavoro.Console
