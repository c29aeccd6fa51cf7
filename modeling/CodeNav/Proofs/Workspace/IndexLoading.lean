import CodeNav.Proofs.Symbol.LineFields
import CodeNav.Proofs.Text.Utf8
import CodeNav.Proofs.Workspace.StoreOperations

/-! Loading an index line by line, whatever its bytes are. A line feed cuts off any sequence of bytes
that is open before it, so the lines on both sides are loaded by themselves; and a carriage return
at the end of a line changes neither its record nor whether the line counts as passed over. -/
namespace CodeNav
set_option autoImplicit false
open Text

namespace LoadedIndex

/-! ## Lines -/

theorem readLines_append (first second : List (List Char)) :
    readLines (first ++ second) =
      { table := (readLines first).table ++ (readLines second).table
        skipped := (readLines first).skipped + (readLines second).skipped } := by
  induction first with
  | nil => simp [readLines]
  | cons line first ih =>
    rw [List.cons_append, readLines, readLines, ih]
    by_cases hblank : isAllBlank line = true
    · simp [hblank]
    · cases Line.parse line with
      | ok r => simp [hblank]
      | error fault => simp [hblank, Nat.add_right_comm]

theorem readLines_single (line : List Char) :
    readLines [line] =
      if isAllBlank line then {}
      else match (Line.parse line).toOption with
        | some r => { table := [r] }
        | none => { skipped := 1 } := by
  rw [readLines]
  cases Line.parse line <;> rfl

theorem readLines_snoc_return (line : List Char) : readLines [line ++ ['\r']] = readLines [line] := by
  have hblank : isAllBlank (line ++ ['\r']) = isAllBlank line := by
    rw [isAllBlank, isAllBlank, List.all_append]
    exact Bool.and_true _
  rw [readLines_single, readLines_single, hblank, Line.parse_snoc_return]

/-! ## Texts -/

theorem ofText_append (first second : List Char) :
    ofText (first ++ '\n' :: second) =
      { table := (ofText first).table ++ (ofText second).table
        skipped := (ofText first).skipped + (ofText second).skipped } := by
  rw [ofText, splitOn_append, readLines_append]
  rfl

theorem ofText_snoc_return (text : List Char) : ofText (text ++ ['\r']) = ofText text := by
  obtain ⟨last, hfree, hlast⟩ := splitOn_last '\n' text
  have hline : ofText (last ++ ['\r']) = ofText last := by
    rw [ofText, ofText, splitOn_free _ _ hfree, splitOn_free _ _ (by simp [hfree]),
      readLines_snoc_return]
  rcases hlast with rfl | ⟨before, rfl⟩
  · exact hline
  · rw [List.append_assoc, List.cons_append, ofText_append, ofText_append, hline]

/-! ## Bytes -/

theorem ofBytes_append (first second : Utf8.Bytes) :
    ofBytes (first ++ 0x0A :: second) =
      { table := (ofBytes first).table ++ (ofBytes second).table
        skipped := (ofBytes first).skipped + (ofBytes second).skipped } := by
  rw [ofBytes, Utf8.decodeLossy_append_one first second 0x0A (by decide)]
  exact ofText_append _ _

theorem ofBytes_snoc_return (bytes : Utf8.Bytes) : ofBytes (bytes ++ [0x0D]) = ofBytes bytes := by
  rw [ofBytes, Utf8.decodeLossy_append_one bytes [] 0x0D (by decide)]
  exact ofText_snoc_return _

/-- The bytes with a carriage return put in front of every line feed. -/
def withReturns (bytes : Utf8.Bytes) : Utf8.Bytes :=
  bytes.flatMap fun b => if b = 0x0A then [0x0D, 0x0A] else [b]

theorem ofBytes_append_withReturns (front bytes : Utf8.Bytes) :
    ofBytes (front ++ withReturns bytes) = ofBytes (front ++ bytes) := by
  -- The bytes of the unfinished line are taken along in front; a line feed leaves nothing of them.
  induction bytes generalizing front with
  | nil => rfl
  | cons b bytes ih =>
    by_cases hb : b = 0x0A
    · have hsplit : front ++ withReturns (b :: bytes) =
          (front ++ [0x0D]) ++ 0x0A :: withReturns bytes := by
        simp [withReturns, hb]
      have hrest := ih []
      rw [List.nil_append, List.nil_append] at hrest
      rw [hsplit, hb, ofBytes_append, ofBytes_append, ofBytes_snoc_return, hrest]
    · have hkeep : front ++ withReturns (b :: bytes) = (front ++ [b]) ++ withReturns bytes := by
        simp [withReturns, hb]
      rw [hkeep, ih (front ++ [b]), List.append_assoc, List.singleton_append]

end LoadedIndex

namespace Store

/-! ## Index files -/

/-- An index of any bytes, cut at any line feed, is loaded as the records in front of the line feed
and then those behind it, and the numbers of lines passed over add up. -/
theorem load_splits_at_line_feed (store : Store) (whole front back : Disk)
    (first second : Utf8.Bytes)
    (hwhole : whole.read store.indexPath = .ok (first ++ 0x0A :: second))
    (hfront : front.read store.indexPath = .ok first)
    (hback : back.read store.indexPath = .ok second) :
    ∃ before after, store.load front = .ok before ∧ store.load back = .ok after ∧
      store.load whole = .ok { table := before.table ++ after.table
                               skipped := before.skipped + after.skipped } := by
  refine ⟨_, _, load_of_read store front first hfront, load_of_read store back second hback, ?_⟩
  rw [load_of_read store whole _ hwhole, LoadedIndex.ofBytes_append]

def indexStore : Store :=
  Store.inWorkspace "/w".toList "symbols.index"

def indexDisk (bytes : Utf8.Bytes) : Disk :=
  ⟨[], [(["w".toList], .directory), (["w".toList, "symbols.index".toList], .file bytes)]⟩

/-- A record whose line stops inside a character. -/
def brokenOff : Utf8.Bytes :=
  Utf8.encode "a.js,f,1,1,x".toList ++ [0xE2, 0x82]

/-- A line that starts with a stray byte and is no record, and a record. -/
def strayFirst : Utf8.Bytes :=
  0xFF :: Utf8.encode "junk\nb.js,g,2,0".toList

theorem load_splits_behind_brokenOff :
    (indexDisk (brokenOff ++ 0x0A :: strayFirst)).read indexStore.indexPath =
        .ok (brokenOff ++ 0x0A :: strayFirst) ∧
      (indexDisk brokenOff).read indexStore.indexPath = .ok brokenOff ∧
      (indexDisk strayFirst).read indexStore.indexPath = .ok strayFirst ∧
      indexStore.load (indexDisk (brokenOff ++ 0x0A :: strayFirst)) =
        .ok { table := [⟨"a.js", "f", 1, 1, [⟨"x\uFFFD", none⟩]⟩, ⟨"b.js", "g", 2, 0, []⟩]
              skipped := 1 } := by
  have hwhole : (indexDisk (brokenOff ++ 0x0A :: strayFirst)).read indexStore.indexPath =
      .ok (brokenOff ++ 0x0A :: strayFirst) := by rfl
  have hfront : (indexDisk brokenOff).read indexStore.indexPath = .ok brokenOff := by rfl
  have hback : (indexDisk strayFirst).read indexStore.indexPath = .ok strayFirst := by rfl
  have hbefore : indexStore.load (indexDisk brokenOff) =
      .ok { table := [⟨"a.js", "f", 1, 1, [⟨"x\uFFFD", none⟩]⟩], skipped := 0 } := by decide +kernel
  have hafter : indexStore.load (indexDisk strayFirst) =
      .ok { table := [⟨"b.js", "g", 2, 0, []⟩], skipped := 1 } := by decide +kernel
  obtain ⟨before, after, hfirst, hsecond, hall⟩ :=
    load_splits_at_line_feed indexStore _ _ _ _ _ hwhole hfront hback
  rw [hbefore, Except.ok.injEq] at hfirst
  rw [hafter, Except.ok.injEq] at hsecond
  rw [← hfirst, ← hsecond] at hall
  exact ⟨hwhole, hfront, hback, hall⟩

/-- Line feeds of an index of any bytes may be written with carriage returns in front of them: it is
loaded with the same records and the same number of lines passed over. -/
theorem load_ignores_returns (store : Store) (plain converted : Disk) (bytes : Utf8.Bytes)
    (hplain : plain.read store.indexPath = .ok bytes)
    (hconverted : converted.read store.indexPath = .ok (LoadedIndex.withReturns bytes)) :
    ∃ loaded, store.load plain = .ok loaded ∧ store.load converted = .ok loaded := by
  refine ⟨_, load_of_read store plain bytes hplain, ?_⟩
  have hsame := LoadedIndex.ofBytes_append_withReturns [] bytes
  rw [List.nil_append, List.nil_append] at hsame
  rw [load_of_read store converted _ hconverted, hsame]

/-- A record without a field for parameters, a blank line, a line that is no record, a record whose
type stops inside a character, and a carriage return that is there already. -/
def mixedLines : Utf8.Bytes :=
  Utf8.encode "a.js,f,1,0\n\njunk\nb.js,g,2,1,x:".toList ++
    [0xC3, 0x0A] ++ Utf8.encode "c.js,h,3,0,\r\n".toList

theorem load_ignores_returns_of_mixedLines :
    (indexDisk mixedLines).read indexStore.indexPath = .ok mixedLines ∧
      (indexDisk (LoadedIndex.withReturns mixedLines)).read indexStore.indexPath =
        .ok (LoadedIndex.withReturns mixedLines) ∧
      indexStore.load (indexDisk (LoadedIndex.withReturns mixedLines)) =
        .ok { table := [⟨"a.js", "f", 1, 0, []⟩, ⟨"b.js", "g", 2, 1, [⟨"x", some "\uFFFD"⟩]⟩,
                        ⟨"c.js", "h", 3, 0, []⟩]
              skipped := 1 } := by
  have hplain : (indexDisk mixedLines).read indexStore.indexPath = .ok mixedLines := by rfl
  have hconverted : (indexDisk (LoadedIndex.withReturns mixedLines)).read indexStore.indexPath =
      .ok (LoadedIndex.withReturns mixedLines) := by rfl
  have hload : indexStore.load (indexDisk mixedLines) =
      .ok { table := [⟨"a.js", "f", 1, 0, []⟩, ⟨"b.js", "g", 2, 1, [⟨"x", some "\uFFFD"⟩]⟩,
                      ⟨"c.js", "h", 3, 0, []⟩]
            skipped := 1 } := by decide +kernel
  obtain ⟨loaded, hfirst, hsecond⟩ := load_ignores_returns indexStore _ _ _ hplain hconverted
  rw [hload, Except.ok.injEq] at hfirst
  exact ⟨hplain, hconverted, hfirst ▸ hsecond⟩

end Store

end CodeNav
