import Lavoro.Console.Addline
import Lavoro.Console.Handles
import Mathlib.Logic.Function.Basic

/-!
# What the commands leave in the files

On a file system without failures, from any world that a console has come to: `cat` and `ls` leave
every file as it is, `rm` takes one away, `mkdir` makes one where there is none, `cp` and `mv` write the
source over the start of the destination, and `addline` writes behind the end.
-/

namespace Lavoro
open Lib

variable {Node : Type} [DecidableEq Node]

/-- No call of the file system fails; `Read` may still hand out any number of bytes. -/
structure Healthy (fw : Firmware Node) : Prop extends Readable fw, Writable fw where
  deletes : ∀ i, fw.deletes i = true

theorem flawless_healthy : Healthy flawless :=
  { flawless_readable, flawless_writable with deletes := fun _ => rfl }

namespace Console
open LFile

variable {fw : Firmware Node} {path src dst : Str16} {w w' : World Node} {c : List UInt8}

/-! ## One file -/

/-- The handle is open on `n`, and the other files are as in `file`. -/
def Elsewhere (n : Node) (file : Node → Option (List UInt8)) (x : Option (Handle Node) × World Node) : Prop :=
  (∃ a, x.1 = some a ∧ a.node = n) ∧ ∀ m, m ≠ n → x.2.file m = file m

theorem elsewhere_kept (fw : Firmware Node) (n : Node) (file : Node → Option (List UInt8)) :
    Kept fw (Elsewhere n file) where
  read k x h := by
    obtain ⟨x1, x2⟩ := x
    obtain ⟨⟨a, rfl, rfl⟩, others⟩ := h
    unfold Efi.read
    simp only
    split
    · exact ⟨⟨a, rfl, rfl⟩, others⟩
    · exact ⟨⟨_, rfl, rfl⟩, others⟩
  write payload x h := by
    obtain ⟨x1, x2⟩ := x
    obtain ⟨⟨a, rfl, rfl⟩, others⟩ := h
    refine ⟨⟨_, rfl, rfl⟩, fun m ne => ?_⟩
    exact (World.setFile_file_ne _ _ ne).trans (others m ne)
  setPosition position a w h := by
    obtain ⟨⟨b, same, node⟩, others⟩ := h
    cases same
    refine ⟨⟨_, rfl, ?_⟩, others⟩
    unfold Efi.setPosition
    simp only
    split
    · exact node
    · exact node

/-- A file that has been opened for creation. -/
theorem construct_create (well : Readable fw) (named : path ≠ []) (w : World Node) :
    (construct fw path true w).1.handle = some ⟨fw.nodeOf path, 0⟩ ∧
      (construct fw path true w).2.file =
        Function.update w.file (fw.nodeOf path) (some (w.content (fw.nodeOf path))) := by
  obtain ⟨w', opened, there, others, -⟩ := openFile_create path (well.opens w.opens)
  rw [construct_eq named, opened]
  refine ⟨rfl, funext fun m => ?_⟩
  by_cases same : m = fw.nodeOf path
  · rw [same, Function.update_self]
    exact there
  · rw [Function.update_of_ne same]
    exact others m same

theorem mkdir_file (well : Readable fw) (named : path ≠ []) (w : World Node) :
    (mkdir fw path w).file =
      Function.update w.file (fw.nodeOf path) (some (w.content (fw.nodeOf path))) :=
  (construct_create well named w).2

/-- `rm`, also where there is nothing to remove. -/
theorem rm_file (well : Healthy fw) (named : path ≠ []) (w : World Node) :
    (rm fw path w).file = Function.update w.file (fw.nodeOf path) none := by
  have granted := well.opens w.opens
  cases there : w.file (fw.nodeOf path) with
  | none =>
    have missing : ¬ Opens fw path false w := by
      rintro ⟨-, -, created | some'⟩
      · cases created
      · rw [there] at some'
        cases some'
    obtain ⟨i, constructed⟩ := construct_missing missing
    rw [← there, Function.update_eq_self, rm, constructed]
    rfl
  | some c =>
    have opens : Opens fw path false w := ⟨named, granted, .inr (by rw [there]; rfl)⟩
    rw [rm, construct_opened opens]
    funext m
    simp [LFile.delete, LFile.destroy, Efi.delete, well.deletes, World.setFile, Function.update_apply]

/-! ## Reading -/

omit [DecidableEq Node] in
/-- The turns of `cat` leave the files as they are. -/
theorem catTurn_file {file : Node → Option (List UInt8)} (s : LFile Node × World Node)
    (h : HasFiles file (s.1.handle, s.2)) :
    HasFiles file ((catTurn fw s).state.1.handle, (catTurn fw s).state.2) := by
  have moved : HasFiles file ((next fw s).1.handle, (next fw s).2) := next_files h
  have shown : HasFiles file ((current fw (next fw s)).2.1.handle, (current fw (next fw s)).2.2) := current_files moved
  unfold catTurn
  split
  · exact h
  · simp only
    split
    · exact current_files shown
    · exact shown

theorem cat_file (fw : Firmware Node) (turns : Nat) (path : Str16) (w : World Node) :
    (cat fw turns path w).state.file = w.file := by
  have opened : HasFiles w.file ((construct fw path false w).1.handle, (construct fw path false w).2) :=
    (unwritten_construct path w).file
  simp only [cat, Turn.state_map, LFile.destroy]
  exact Loop.after_keeps catTurn_file turns opened

theorem ls_file (fw : Firmware Node) (entries : Node → List DirEntry) (szBuffer : DirEntry) (turns : Nat)
    (path : Str16) (w : World Node) : (ls fw entries szBuffer turns path w).state.file = w.file := by
  have opened : (construct fw path false w).2.file = w.file := (unwritten_construct path w).file
  simp only [ls, Turn.state_map, LFile.destroy]
  rw [← opened]
  let Inv (s : Enumeration (List LsLine) × World Node) : Prop := s.2.file = (construct fw path false w).2.file
  refine Loop.after_keeps (fun s h => ?_) turns (show Inv (_, (construct fw path false w).2) from rfl)
  unfold throughHandle
  split
  · exact h
  · split
    · exact h
    · rw [Turn.state_map]
      exact h

omit [DecidableEq Node] in
/-- A turn of `cat` whose `Next()` comes to `l`: it goes on where that is something. -/
theorem catTurn_next {n : Node} {l : List UInt8} {s : LFile Node × World Node}
    (more : Reader.atEnd s.1.reader = false)
    (h : Reader.Delivers (HoldsFile fw n c) ((next fw s).1.reader, (next fw s).1.handle, (next fw s).2) l) :
    catTurn fw s = if l = [] then .leave (next fw s) else .again (next fw s) := by
  have going : ¬ Reader.atEnd s.1.reader = true := by simp [more]
  rw [catTurn, if_neg going]
  cases l with
  | nil =>
    have shown : current fw (next fw s) = (readerEof, next fw s) := by
      simp only [current, Reader.current_delivers (readBuffer fw) h, onReader]
      rfl
    simp [shown]
  | cons b l =>
    have shown : current fw (next fw s) = ((b.toNat : Int), next fw s) := by
      simp only [current, Reader.current_delivers_cons (readBuffer fw) h, onReader]
    have byte : ((b.toNat : Int)) ≠ readerEof := by
      unfold readerEof
      omega
    simp [shown, byte]

omit [DecidableEq Node] in
/-- The turns of `cat`, from a reader that comes to `l`. -/
theorem catTurn_leaves {n : Node} {l : List UInt8} {s : LFile Node × World Node}
    (more : Reader.atEnd s.1.reader = false)
    (h : Reader.Delivers (HoldsFile fw n c) ((next fw s).1.reader, (next fw s).1.handle, (next fw s).2) l) :
    ∃ r, Loop.Leaves (catTurn fw) s r := by
  have turn := catTurn_next more h
  induction l generalizing s with
  | nil => exact ⟨_, (Loop.leaves_leave turn).2 rfl⟩
  | cons b l ih =>
    rw [if_neg (List.cons_ne_nil b l)] at turn
    have moved := Reader.next_delivers (Reader.fileReadBuffer_refills (Efi.read_fits fw))
      (readable_supplies fw n c) h
    have going : Reader.atEnd (next fw s).1.reader = false := Reader.atEnd_delivers_cons h
    obtain ⟨r, leaves⟩ := ih going moved (catTurn_next going moved)
    exact ⟨r, (Loop.leaves_again turn).2 leaves⟩

/-- **`cat` comes to its end** on a file that is there. -/
theorem cat_leaves (well : Readable fw) (named : path ≠ []) (w : World Node)
    (there : w.file (fw.nodeOf path) = some c) :
    ∃ enough w', ∀ turns, enough ≤ turns → cat fw turns path w = .leave w' := by
  have reads := open_reads well named there
  have more : Reader.atEnd (construct fw path false w).1.reader = false := by
    rw [construct_eq named]
    exact Bool.eq_false_iff.2 fun ended => absurd ended Bool.false_ne_true
  obtain ⟨r, enough, run⟩ := catTurn_leaves more reads.delivers
  refine ⟨enough, LFile.destroy r, fun turns le => ?_⟩
  rw [cat, Loop.after_eq_leave_iff.2 (Loop.run_mono run le)]
  rfl

omit [DecidableEq Node] in
/-- A loop over a directory through a handle that is open. -/
theorem throughHandle_leaves {ρ : Type} {turn : Enumeration ρ → Turn (Enumeration ρ) (Enumeration ρ)}
    (a : Handle Node) {e r : Enumeration ρ} (stops : ∀ e, e.szBufferSize = 0 → turn e = .leave e)
    (h : Loop.Leaves turn e r) (w : World Node) :
    Loop.Leaves (throughHandle turn (some a)) (e, w) (r, w) := by
  have same : ∀ x, throughHandle turn (some a) (x, w) = (turn x).map fun e => (e, w) := by
    intro x
    unfold throughHandle
    split
    · rename_i ended
      rw [stops x ended]
      rfl
    · rfl
  obtain ⟨enough, run⟩ := h
  refine ⟨enough, Loop.after_eq_leave_iff.1 ?_⟩
  rw [Loop.after_map (fun e => (e, w)) same, Loop.after_eq_leave_iff.2 run]
  rfl

/-- **`ls` comes to its end** in a directory that opens and whose entries fit the buffer. -/
theorem ls_leaves (well : Readable fw) (named : path ≠ []) (entries : Node → List DirEntry)
    (szBuffer : DirEntry) (w : World Node) (there : w.file (fw.nodeOf path) = some c)
    (fits : ∀ e ∈ entries (fw.nodeOf path), e.Fits) :
    ∃ enough w', ∀ turns, enough ≤ turns → ls fw entries szBuffer turns path w = .leave w' := by
  obtain ⟨r, leaves, -⟩ := (lsComplete_iff szBuffer _).2 fits
  have opened := openFile_present path false (well.opens w.opens) there
  have stops : ∀ e : Enumeration (List LsLine), e.szBufferSize = 0 → lsTurn e = .leave e := by
    intro e ended
    rw [lsTurn, enumTurn, if_pos ended]
  obtain ⟨enough, run⟩ := throughHandle_leaves ⟨fw.nodeOf path, 0⟩ stops leaves { w with opens := w.opens + 1 }
  refine ⟨enough, { w with opens := w.opens + 1 }, fun turns le => ?_⟩
  have turns := Loop.after_eq_leave_iff.2 (Loop.run_mono run le)
  unfold ls
  rw [construct_eq named, opened]
  simp only [turns]
  rfl

/-! ## Writing -/

/-- `addline`, with the other files. -/
theorem addline_file (well : Healthy fw) (named : path ≠ []) (text : Str16) (w : World Node) :
    ∃ enough w', (∀ turns, enough ≤ turns → addline fw turns path text w = .leave w') ∧
      w'.file = Function.update w.file (fw.nodeOf path)
        (some (w.content (fw.nodeOf path) ++ text.map UInt16.toUInt8 ++ [13, 10])) := by
  obtain ⟨enough, w', leaves, there⟩ := addline_leaves well.toReadable well.toWritable named text w
  refine ⟨enough, w', leaves, funext fun m => ?_⟩
  by_cases same : m = fw.nodeOf path
  · rw [same, Function.update_self]
    exact there
  · obtain ⟨handle, file⟩ := construct_create well.toReadable named w
    have opened : Elsewhere (fw.nodeOf path) w.file
        ((construct fw path true w).1.handle, (construct fw path true w).2) :=
      ⟨⟨_, handle, rfl⟩, fun m other => by rw [file, Function.update_of_ne other]⟩
    have kept := elsewhere_kept fw (fw.nodeOf path) w.file
    obtain ⟨_, rest⟩ := addline_kept kept enough text (next_kept kept opened)
    rw [leaves enough (Nat.le_refl _)] at rest
    rw [Function.update_of_ne same]
    exact rest.2 m same

end Console
end Lavoro
