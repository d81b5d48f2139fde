import Lavoro.Lib.LinkedTrie
import Lavoro.Screen.SheetFaults

/-!
# The table of the glyphs (`LFontHolder`)

`FontHolder` is a node with 256 pointers for the low byte of a character, behind which lie nodes with 256 pointers for
the high byte. The nodes are made when a glyph needs them, and characters with the same low byte share one. The table
is a map all the same: a glyph is found under its own character only.
-/

namespace Lavoro.Screen
open Lib

/-- The nodes of a font's table; `FontHolder` itself has the address 0. -/
abbrev FontHolders := TrieHeap UInt8 MaskedScreen

/-- A glyph that `LoadBitmap` stores, and its character. -/
abbrev Insertion := UInt16 × MaskedScreen

namespace FontHolders

/-- `CharBitmap` is stored for `CharSet[k]`. -/
def store (t : FontHolders) (char : UInt16) (charBitmap : MaskedScreen) : FontHolders :=
  let low := (char &&& 0xff).toUInt8
  let high := ((char >>> 8) &&& 0xff).toUInt8
  let t := t.grow 0 low
  match (t.node 0).child low with
  | none => t
  | some p =>
    let t := t.grow p high
    match (t.node p).child high with
    | none => t
    | some q => t.put q charBitmap

/-- `GetCharBitmap(Char)`. -/
def getCharBitmap (t : FontHolders) (char : UInt16) : Option MaskedScreen :=
  let low := (char &&& 0xff).toUInt8
  let high := ((char >>> 8) &&& 0xff).toUInt8
  match (t.node 0).child low with
  | none => none
  | some p =>
    match (t.node p).child high with
    | none => none
    | some q => (t.node q).value

/-- The table of a new font after these insertions. -/
def after (l : List Insertion) : FontHolders := l.foldl (fun t x => store t x.1 x.2) TrieHeap.root

theorem store_eq (t : FontHolders) (char : UInt16) (charBitmap : MaskedScreen) :
    store t char charBitmap = t.insert charBitmap (charKey char) 0 := by
  simp only [store, charKey, TrieHeap.insert]
  cases ((t.grow 0 (char &&& 0xff).toUInt8).node 0).child (char &&& 0xff).toUInt8 with
  | none => rfl
  | some p =>
    simp only
    split
    · rename_i missing
      rw [missing]
    · rename_i q there
      rw [there]

theorem getCharBitmap_eq (t : FontHolders) (char : UInt16) : getCharBitmap t char = t.get (charKey char) 0 := by
  simp only [getCharBitmap, TrieHeap.get, charKey, TrieHeap.find]
  cases (t.node 0).child (char &&& 0xff).toUInt8 with
  | none => rfl
  | some p =>
    simp only [Option.bind_some]
    cases (t.node p).child ((char >>> 8) &&& 0xff).toUInt8 <;> rfl

end FontHolders

/-! ## What `LoadBitmap` inserts -/

namespace Sheet

/-- The insertions of the loop over the character set. -/
def insertions (memory : Nat → BitVec 32) (s : Sheet) : Str16 → BitVec 32 → Except FontFault (List Insertion)
  | [], _ => return []
  | char :: charSet, j =>
    if j.ult s.box.maxWidth then do
      let (startscan, j) ← s.scanColumns (s.box.maxWidth.toNat - j.toNat) j (~~~0) true
      if startscan ≠ ~~~0 then
        let charBitmap ← s.charBitmap memory startscan j
        return (char, charBitmap) :: (← insertions memory s charSet (j + 1))
      else insertions memory s charSet (j + 1)
    else return []

end Sheet

namespace Glyphs

/-- `LoadBitmap` in front of that loop. -/
def readSheet (bitmap : LScreen) (charSet : Str16) : Except FontFault Sheet := do
  let emptyColor ← readPixel bitmap 0 0
  let box ← InkBox.find bitmap emptyColor
  let charSetLength := BitVec.ofNat 32 charSet.length
  if charSetLength = 0 then throw .divideByZero
  let minCharWidth := ((box.maxWidth - box.minWidth).sdiv charSetLength).sdiv 3
  if (box.maxHeight - box.minHeight).msb then throw .negativeSize
  return ⟨bitmap, emptyColor, box, minCharWidth⟩

/-- The insertions of a `LoadBitmap`. -/
def insertionsOf (memory : Nat → BitVec 32) (sheet : LScreen × Str16) : Except FontFault (List Insertion) :=
  if (sheet.1.w * sheet.1.h).msb then .error .negativeSize
  else do
    let s ← readSheet sheet.1 sheet.2
    s.insertions memory sheet.2 s.box.minWidth

/-- The insertions of one `LoadBitmap` after the other. -/
def insertions (memory : Nat → BitVec 32) : List (LScreen × Str16) → Except FontFault (List Insertion)
  | [] => return []
  | sheet :: sheets => do return (← insertionsOf memory sheet) ++ (← insertions memory sheets)

/-- The trie after these insertions. -/
def inserted (l : List Insertion) (t : LFontHolder) : LFontHolder := Trie.inserted (fun x => charKey x.1) Prod.snd l t

section Loads

variable {memory : Nat → BitVec 32}

theorem loadChars_inserts (s : Sheet) (charSet : Str16) (j : BitVec 32) (font : Glyphs) :
    (loadChars memory s charSet j font).map fontHolder =
      (s.insertions memory charSet j).map fun l => inserted l font.fontHolder := by
  induction charSet generalizing j font with
  | nil => rfl
  | cons char charSet ih =>
    unfold loadChars Sheet.insertions
    split
    · cases s.scanColumns (s.box.maxWidth.toNat - j.toNat) j (~~~0) true with
      | error e => rfl
      | ok x =>
        obtain ⟨startscan, j'⟩ := x
        simp only [bind, Except.bind]
        split
        · cases s.charBitmap memory startscan j' with
          | error e => rfl
          | ok charBitmap =>
            simp only
            rw [ih]
            cases s.insertions memory charSet (j' + 1) with
            | error e => rfl
            | ok l => rfl
        · exact ih (j' + 1) font
    · rfl

theorem loadSheet_reads (font : Glyphs) (bitmap : LScreen) (charSet : Str16) :
    font.loadSheet memory bitmap charSet = readSheet bitmap charSet >>= fun s =>
      loadChars memory s charSet s.box.minWidth { font with fontEmptyColor := s.emptyColor } := by
  unfold loadSheet readSheet
  cases readPixel bitmap 0 0 with
  | error e => rfl
  | ok emptyColor =>
    simp only [bind, Except.bind]
    cases InkBox.find bitmap emptyColor with
    | error e => rfl
    | ok box =>
      simp only
      split
      · rfl
      · split <;> rfl

theorem loadRead_inserts (font : Glyphs) (sheet : LScreen × Str16) :
    (loadRead memory font sheet).map fontHolder =
      (insertionsOf memory sheet).map fun l => inserted l font.fontHolder := by
  unfold loadRead insertionsOf
  split
  · rfl
  · rw [loadSheet_reads]
    cases readSheet sheet.1 sheet.2 with
    | error e => rfl
    | ok s => exact loadChars_inserts s sheet.2 s.box.minWidth { font with fontEmptyColor := s.emptyColor }

theorem inserted_append (l l' : List Insertion) (t : LFontHolder) : inserted (l ++ l') t = inserted l' (inserted l t) :=
  List.foldl_append

/-- **The trie of a font** is that of the insertions. -/
theorem loadSheets_inserts (sheets : List (LScreen × Str16)) (font : Glyphs) :
    (sheets.foldlM (loadRead memory) font).map fontHolder =
      (insertions memory sheets).map fun l => inserted l font.fontHolder := by
  induction sheets generalizing font with
  | nil => rfl
  | cons sheet sheets ih =>
    have first : (loadRead memory font sheet).map fontHolder = _ := loadRead_inserts font sheet
    rw [List.foldlM_cons, insertions]
    cases loaded : loadRead memory font sheet with
    | error e =>
      rw [loaded] at first
      cases made : insertionsOf memory sheet with
      | error e' =>
        rw [made] at first
        exact first
      | ok l =>
        rw [made] at first
        cases first
    | ok font' =>
      rw [loaded] at first
      cases made : insertionsOf memory sheet with
      | error e' =>
        rw [made] at first
        cases first
      | ok l =>
        rw [made] at first
        have holder : font'.fontHolder = inserted l font.fontHolder := Except.ok.inj first
        apply (ih font').trans
        rw [holder]
        cases insertions memory sheets with
        | error e => rfl
        | ok l' => exact congrArg Except.ok (inserted_append l l' font.fontHolder).symm

end Loads

end Glyphs

/-! ## The table is a map -/

namespace FontHolders

variable {l : List Insertion} {t : FontHolders} {u : LFontHolder}

/-- The nodes represent the trie of the insertions. -/
theorem represents_after (l : List Insertion) : (after l).Represents (Glyphs.inserted l .empty) := by
  have run : ∀ (l : List Insertion) {t : FontHolders} {u : LFontHolder}, t.Represents u →
      TrieHeap.Represents (l.foldl (fun t x => store t x.1 x.2) t) (Glyphs.inserted l u) := by
    intro l
    induction l with
    | nil => exact fun represents => represents
    | cons x l ih =>
      intro t u represents
      have stored := represents.insert x.2 (charKey x.1)
      rw [← store_eq] at stored
      exact ih stored
  exact run l TrieHeap.root_represents

theorem getCharBitmap_after (l : List Insertion) (c : UInt16) :
    (after l).getCharBitmap c = (Glyphs.inserted l .empty).get (charKey c) := by
  rw [getCharBitmap_eq, (represents_after l).same]

/-- One more insertion. -/
theorem getCharBitmap_snoc (l : List Insertion) (char : UInt16) (charBitmap : MaskedScreen) (c : UInt16) :
    (after (l ++ [(char, charBitmap)])).getCharBitmap c =
      if c = char then some charBitmap else (after l).getCharBitmap c := by
  rw [getCharBitmap_after, getCharBitmap_after, Glyphs.inserted_append]
  show Trie.get _ (Trie.insert charBitmap (charKey char) _) = _
  rw [Trie.get_insert]
  by_cases same : c = char
  · rw [if_pos same, if_pos (congrArg charKey same)]
  · rw [if_neg same, if_neg (mt charKey_injective same)]

/-- Insertions for other characters. -/
theorem getCharBitmap_append {behind : List Insertion} {c : UInt16} (other : c ∉ behind.map Prod.fst)
    (l : List Insertion) : (after (l ++ behind)).getCharBitmap c = (after l).getCharBitmap c := by
  rw [getCharBitmap_after, getCharBitmap_after, Glyphs.inserted_append]
  apply Trie.get_inserted_of_not_mem
  intro x mem same
  exact other (List.mem_map.2 ⟨x, mem, charKey_injective same⟩)

/-- **The glyph table is a map.** After any insertions `GetCharBitmap` returns the glyph inserted last for just the
character asked for, and `NULL` for one that none was inserted for; an insertion changes nothing for another
character; and what `LoadBitmap` calls, over any sheets and character sets, make of a new font is the table of the
insertions that they make. -/
theorem glyph_table_is_map :
    (∀ (before behind : List Insertion) (c : UInt16) (glyph : MaskedScreen), c ∉ behind.map Prod.fst →
      (after (before ++ (c, glyph) :: behind)).getCharBitmap c = some glyph) ∧
    (∀ (l : List Insertion) (c : UInt16), c ∉ l.map Prod.fst → (after l).getCharBitmap c = none) ∧
    (∀ (l : List Insertion) (char : UInt16) (glyph : MaskedScreen) (c : UInt16), c ≠ char →
      (store (after l) char glyph).getCharBitmap c = (after l).getCharBitmap c) ∧
    ∀ (memory : Nat → BitVec 32) (sheets : List (LScreen × Str16)),
      (Glyphs.loadSheets memory sheets).map Glyphs.getCharBitmap =
        (Glyphs.insertions memory sheets).map fun l => (after l).getCharBitmap := by
  refine ⟨?_, ?_, ?_, ?_⟩
  · intro before behind c glyph other
    rw [List.append_cons, getCharBitmap_append other, getCharBitmap_snoc, if_pos rfl]
  · intro l c other
    rw [← List.nil_append l, getCharBitmap_append other]
    rfl
  · intro l char glyph c ne
    have snoc : store (after l) char glyph = after (l ++ [(char, glyph)]) := by
      rw [after, after, List.foldl_append]
      rfl
    rw [snoc, getCharBitmap_snoc, if_neg ne]
  · intro memory sheets
    have made : (sheets.foldlM (Glyphs.loadRead memory) .new).map Glyphs.fontHolder = _ :=
      Glyphs.loadSheets_inserts sheets .new
    unfold Glyphs.loadSheets
    cases loaded : sheets.foldlM (Glyphs.loadRead memory) .new with
    | error e =>
      rw [loaded] at made
      cases found : Glyphs.insertions memory sheets with
      | error e' =>
        rw [found] at made
        cases made
        rfl
      | ok l =>
        rw [found] at made
        cases made
    | ok font =>
      rw [loaded] at made
      cases found : Glyphs.insertions memory sheets with
      | error e' =>
        rw [found] at made
        cases made
      | ok l =>
        rw [found] at made
        have holder : font.fontHolder = Glyphs.inserted l .empty := Except.ok.inj made
        refine congrArg Except.ok (funext fun c => ?_)
        show _ = (after l).getCharBitmap c
        rw [getCharBitmap_after, ← holder]
        rfl

end FontHolders

end Lavoro.Screen
