import EdgeAllocator.Assembly

/-! Messages as a client or the server writes them, and that `handleClient` reads back
what was written. -/
namespace EdgeAllocator.Assembly

open Foundation

def cr : UInt8 := 13
def lf : UInt8 := 10

/-- A line of a header: something, and no line break in it. -/
structure Clean (line : List UInt8) : Prop where
  nonempty : line ≠ []
  cr : cr ∉ line
  lf : lf ∉ line

def headerBlock (first : List UInt8) : List (List UInt8) → List UInt8
  | [] => first
  | line :: later => first ++ cr :: lf :: headerBlock line later

theorem terminator_eq : terminator = [cr, lf, cr, lf] := by decide

theorem find_skip {line : List UInt8} (h : cr ∉ line) (text : List UInt8) :
    find terminator (line ++ text) = (find terminator text).map (· + line.length) := by
  induction line with
  | nil => simp
  | cons c line ih =>
      obtain ⟨hhead, hline⟩ := not_or.mp (List.mem_cons.not.mp h)
      have hnone : ¬ terminator <+: c :: (line ++ text) := by
        rw [terminator_eq]
        exact fun hhere => hhead (List.cons_prefix_cons.mp hhere).1
      rw [List.cons_append, find, if_neg hnone, ih hline, Option.map_map]
      rfl

theorem find_break {c : UInt8} (h : c ≠ cr) (text : List UInt8) :
    find terminator (cr :: lf :: c :: text) = (find terminator (c :: text)).map (· + 2) := by
  have hfirst : ¬ terminator <+: cr :: lf :: c :: text := by
    rw [terminator_eq, List.cons_prefix_cons, List.cons_prefix_cons, List.cons_prefix_cons]
    exact fun hhere => h hhere.2.2.1.symm
  have hsecond : ¬ terminator <+: lf :: c :: text := by
    rw [terminator_eq, List.cons_prefix_cons]
    exact fun hhere => absurd hhere.1 (by decide)
  rw [find, if_neg hfirst, find, if_neg hsecond, Option.map_map]
  rfl

theorem find_terminator (rest : List UInt8) : find terminator (terminator ++ rest) = some 0 := by
  rw [terminator_eq]
  exact if_pos (List.prefix_append _ rest)

theorem headerBlock_head {first : List UInt8} (h : Clean first) (later : List (List UInt8)) :
    ∃ c text, headerBlock first later = c :: text ∧ c ≠ cr := by
  obtain ⟨c, line, rfl⟩ := List.exists_cons_of_ne_nil h.nonempty
  have hc : c ≠ cr := fun heq => h.cr (heq ▸ List.mem_cons_self)
  cases later with
  | nil => exact ⟨c, line, rfl, hc⟩
  | cons next later => exact ⟨c, _, rfl, hc⟩

theorem find_headerBlock {first : List UInt8} {later : List (List UInt8)} (hfirst : Clean first)
    (hlater : ∀ line ∈ later, Clean line) (body : List UInt8) :
    find terminator (headerBlock first later ++ terminator ++ body) =
      some (headerBlock first later).length := by
  induction later generalizing first with
  | nil =>
      rw [headerBlock, List.append_assoc, find_skip hfirst.cr, find_terminator]
      simp
  | cons line later ih =>
      obtain ⟨hline, hlater⟩ := List.forall_mem_cons.mp hlater
      have hrest := ih hline hlater
      obtain ⟨c, text, hhead, hc⟩ := headerBlock_head hline later
      rw [hhead] at hrest
      rw [headerBlock, hhead]
      simp only [List.append_assoc, List.cons_append] at hrest ⊢
      rw [find_skip hfirst.cr, find_break hc, hrest]
      simp only [Option.map_some, List.length_append, List.length_cons]
      congr 1
      omega

theorem lines_append {line : List UInt8} (h : lf ∉ line) (text : List UInt8) :
    lines (line ++ lf :: text) = line :: lines text := by
  induction line with
  | nil => exact if_pos rfl
  | cons c line ih =>
      obtain ⟨hhead, hline⟩ := not_or.mp (List.mem_cons.not.mp h)
      have hc : c ≠ 10 := Ne.symm hhead
      rw [List.cons_append, lines, if_neg hc, ih hline]

theorem lines_of_clean {line : List UInt8} (h : Clean line) : lines line = [line] := by
  obtain ⟨hnonempty, -, hlf⟩ := h
  induction line with
  | nil => exact absurd rfl hnonempty
  | cons c line ih =>
      obtain ⟨hhead, hline⟩ := not_or.mp (List.mem_cons.not.mp hlf)
      have hc : c ≠ 10 := Ne.symm hhead
      rw [lines, if_neg hc]
      cases line with
      | nil => rfl
      | cons next line => rw [ih (List.cons_ne_nil _ _) hline]

theorem trim_cr (value : List UInt8) : trim (value ++ [cr]) = trim value := by
  unfold trim
  rw [List.dropWhile_append]
  split
  · rename_i hempty
    rw [List.isEmpty_iff.mp hempty]
    rfl
  · exact List.rdropWhile_concat_pos isBlank _ cr rfl

theorem find_colon_cr (line : List UInt8) :
    find (ascii ":") (line ++ [cr]) = find (ascii ":") line := by
  induction line with
  | nil => decide
  | cons c line ih =>
      have hhere : ascii ":" <+: c :: (line ++ [cr]) ↔ ascii ":" <+: c :: line := by
        show [_] <+: _ ↔ [_] <+: _
        simp [List.cons_prefix_cons]
      rw [List.cons_append, find, find, ih]
      simp only [hhere]

theorem readLine_cr (expectedBody : Nat) (line : List UInt8) :
    readLine expectedBody (line ++ [cr]) = readLine expectedBody line := by
  unfold readLine
  rw [find_colon_cr]
  cases hcolon : find (ascii ":") line with
  | none => rfl
  | some colon =>
      have hwithin : colon + 1 ≤ line.length := find_within hcolon
      dsimp only
      rw [List.take_append_of_le_length (Nat.le_of_succ_le hwithin),
        List.drop_append_of_le_length hwithin, trim_cr]

theorem lines_headerBlock {first : List UInt8} (hfirst : Clean first) (later : List (List UInt8)) :
    ∃ line, (line = first ∨ line = first ++ [cr]) ∧
      lines (headerBlock first later) =
        line :: match later with
          | [] => []
          | next :: later => lines (headerBlock next later) := by
  cases later with
  | nil => exact ⟨first, Or.inl rfl, lines_of_clean hfirst⟩
  | cons next later =>
      have hlf : lf ∉ first ++ [cr] := by
        rw [List.mem_append, not_or]
        exact ⟨hfirst.lf, by decide⟩
      refine ⟨first ++ [cr], Or.inr rfl, ?_⟩
      rw [headerBlock, ← List.singleton_append, ← List.append_assoc, lines_append hlf]

theorem foldl_lines {first : List UInt8} {later : List (List UInt8)} (hfirst : Clean first)
    (hlater : ∀ line ∈ later, Clean line) (expectedBody : Nat) :
    (lines (headerBlock first later)).foldl readLine expectedBody =
      (first :: later).foldl readLine expectedBody := by
  induction later generalizing first expectedBody with
  | nil => rw [headerBlock, lines_of_clean hfirst]
  | cons next later ih =>
      obtain ⟨hnext, hlater⟩ := List.forall_mem_cons.mp hlater
      obtain ⟨line, hline, hlines⟩ := lines_headerBlock hfirst (next :: later)
      have hread : readLine expectedBody line = readLine expectedBody first := by
        obtain rfl | rfl := hline
        · rfl
        · exact readLine_cr expectedBody first
      rw [hlines, List.foldl_cons, hread]
      exact ih hnext hlater _

theorem contentLength_headerBlock {first : List UInt8} {later : List (List UInt8)}
    (hfirst : Clean first) (hlater : ∀ line ∈ later, Clean line) :
    contentLength (headerBlock first later) = later.foldl readLine 0 := by
  obtain ⟨line, -, hlines⟩ := lines_headerBlock hfirst later
  rw [contentLength, hlines, List.tail_cons]
  cases later with
  | nil => rfl
  | cons next later =>
      obtain ⟨hnext, hlater⟩ := List.forall_mem_cons.mp hlater
      exact foldl_lines hnext hlater 0

/-- The value is all that follows the colon, with any blanks around it. -/
structure HeaderField where
  name : List UInt8
  value : List UInt8

def HeaderField.line (field : HeaderField) : List UInt8 := field.name ++ 58 :: field.value

def headerField (name value : List UInt8) : HeaderField := ⟨name, 32 :: value⟩

def HeaderField.isLength (field : HeaderField) : Bool :=
  field.name = ascii "Content-Length" ∨ field.name = ascii "content-length"

/-- A name has no blank and no colon. -/
def Token (name : List UInt8) : Prop := name ≠ [] ∧ ∀ c ∈ name, isBlank c = false ∧ c ≠ 58

instance (name : List UInt8) : Decidable (Token name) :=
  inferInstanceAs (Decidable (name ≠ [] ∧ ∀ c ∈ name, isBlank c = false ∧ c ≠ 58))

structure HeaderField.Sound (field : HeaderField) : Prop where
  name : Token field.name
  value : cr ∉ field.value ∧ lf ∉ field.value

theorem find_colon {name : List UInt8} (h : ∀ c ∈ name, c ≠ 58) (text : List UInt8) :
    find (ascii ":") (name ++ 58 :: text) = some name.length := by
  induction name with
  | nil => exact if_pos (List.prefix_append _ text)
  | cons c name ih =>
      obtain ⟨hhead, hname⟩ := List.forall_mem_cons.mp h
      have hnone : ¬ ascii ":" <+: c :: (name ++ 58 :: text) := fun hhere =>
        hhead (List.cons_prefix_cons.mp hhere).1.symm
      rw [List.cons_append, find, if_neg hnone, ih hname]
      rfl

theorem trim_eq_self {text : List UInt8} (h : ∀ c ∈ text, isBlank c = false) :
    trim text = text := by
  unfold trim
  have hdrop : text.dropWhile isBlank = text := by
    cases text with
    | nil => rfl
    | cons c text =>
        rw [List.dropWhile_cons_of_neg (by simp [h c List.mem_cons_self])]
  rw [hdrop, List.rdropWhile_eq_self_iff]
  intro hnonempty
  simp [h _ (List.getLast_mem hnonempty)]

def declared (value : List UInt8) : Nat :=
  match readUnsigned sizeLimit ((trim value).map charOf) with
  | .ok n => n
  | .error _ => 0

theorem readLine_field {field : HeaderField} (h : field.Sound) (expectedBody : Nat) :
    readLine expectedBody field.line =
      if field.isLength then declared field.value else expectedBody := by
  have hcolon : find (ascii ":") field.line = some field.name.length :=
    find_colon (fun c hc => (h.name.2 c hc).2) _
  have hname : trim (field.line.take field.name.length) = field.name := by
    rw [HeaderField.line, List.take_left, trim_eq_self fun c hc => (h.name.2 c hc).1]
  have hvalue : trim (field.line.drop (field.name.length + 1)) = trim field.value := by
    rw [HeaderField.line, ← List.drop_drop, List.drop_left]
    rfl
  unfold readLine
  rw [hcolon]
  dsimp only
  rw [hname, hvalue]
  simp only [HeaderField.isLength, decide_eq_true_eq]
  rfl

theorem HeaderField.Sound.clean {field : HeaderField} (h : field.Sound) : Clean field.line := by
  have hname {c : UInt8} (hc : isBlank c = true) : c ∉ field.name := fun hmem =>
    absurd hc (Bool.eq_false_iff.mp (h.name.2 c hmem).1)
  refine ⟨fun hnil => h.name.1 (List.append_eq_nil_iff.mp hnil).1, fun hmem => ?_, fun hmem => ?_⟩
  · obtain hold | hnew := List.mem_append.mp hmem
    · exact hname (by decide) hold
    · exact h.value.1 (by simpa [cr] using hnew)
  · obtain hold | hnew := List.mem_append.mp hmem
    · exact hname (by decide) hold
    · exact h.value.2 (by simpa [lf] using hnew)

theorem foldl_fields {fields : List HeaderField} (h : ∀ field ∈ fields, field.Sound)
    (expectedBody : Nat) :
    (fields.map HeaderField.line).foldl readLine expectedBody =
      ((fields.filter HeaderField.isLength).map fun field => declared field.value).getLastD
        expectedBody := by
  induction fields generalizing expectedBody with
  | nil => rfl
  | cons field fields ih =>
      obtain ⟨hhead, hfields⟩ := List.forall_mem_cons.mp h
      rw [List.map_cons, List.foldl_cons, readLine_field hhead, ih hfields]
      cases hlength : field.isLength with
      | true => rw [if_pos rfl, List.filter_cons_of_pos hlength, List.map_cons, List.getLastD_cons]
      | false => rw [if_neg Bool.false_ne_true, List.filter_cons_of_neg (by simp [hlength])]

def digits (n : Nat) : List UInt8 := ascii (Nat.repr n)

theorem toNat_toUInt8 {c : Char} (h : c.isDigit = true) : c.toUInt8.toNat = c.toNat := by
  have hrange : 48 ≤ c.toNat ∧ c.toNat ≤ 57 := Char.isDigit_iff_toNat.mp h
  show c.toNat % 2 ^ 8 = c.toNat
  omega

theorem charOf_toUInt8 {c : Char} (h : c.isDigit = true) : charOf c.toUInt8 = c := by
  rw [charOf, toNat_toUInt8 h, Char.ofNat_toNat]

theorem isBlank_digit {c : Char} (h : c.isDigit = true) : isBlank c.toUInt8 = false := by
  have hrange : 48 ≤ c.toNat ∧ c.toNat ≤ 57 := Char.isDigit_iff_toNat.mp h
  have hcode := toNat_toUInt8 h
  have hne (n : UInt8) (hn : n.toNat < 48) : c.toUInt8 ≠ n := by
    rintro heq
    rw [heq] at hcode
    omega
  simp [isBlank, hne]

theorem declared_of_trim {value : List UInt8} {n : Nat} (hvalue : trim value = digits n)
    (h : n < sizeLimit) : declared value = n := by
  have hdigit (c : Char) (hc : c ∈ (Nat.repr n).toList) : c.isDigit = true := by
    rw [Nat.toList_repr] at hc
    exact Nat.isDigit_of_mem_toDigits (by decide) (by decide) hc
  have htext : (digits n).map charOf = (Nat.repr n).toList := by
    rw [digits, ascii, List.map_map]
    exact (List.map_congr_left fun c hc => charOf_toUInt8 (hdigit c hc)).trans (List.map_id _)
  have hdecimal : decimal (Nat.repr n).toList = n := by
    rw [Nat.toList_repr]
    exact Nat.ofDigitChars_ten_toDigits
  have hplain : Plain sizeLimit (Nat.repr n).toList :=
    ⟨by rw [Nat.toList_repr]; exact Nat.toDigits_ne_nil, hdigit, hdecimal.symm ▸ h⟩
  rw [declared, hvalue, htext, hplain.readUnsigned, hdecimal]

theorem trim_spaced_digits (n : Nat) : trim (32 :: digits n) = digits n := by
  rw [trim, List.dropWhile_cons_of_pos (by decide)]
  refine trim_eq_self fun c hc => ?_
  obtain ⟨char, hchar, rfl⟩ := List.mem_map.mp hc
  rw [Nat.toList_repr] at hchar
  exact isBlank_digit (Nat.isDigit_of_mem_toDigits (by decide) (by decide) hchar)

/-- A request, or a response with its version for the method and its status code for the
target. -/
structure Message where
  method : List UInt8
  target : List UInt8
  rest : List UInt8
  fields : List HeaderField
  body : List UInt8

namespace Message

def startLine (m : Message) : List UInt8 := m.method ++ 32 :: (m.target ++ 32 :: m.rest)

def header (m : Message) : List UInt8 := headerBlock m.startLine (m.fields.map HeaderField.line)

def bytes (m : Message) : List UInt8 := m.header ++ terminator ++ m.body

structure Word (text : List UInt8) : Prop where
  nonempty : text ≠ []
  visible : ∀ c ∈ text, isSpace (charOf c) = false

/-- The message is well formed, and its length is declared once, in one of the spellings
that `handleClient` knows, or there is no body. -/
structure Sound (m : Message) : Prop where
  method : Word m.method
  target : Word m.target
  rest : cr ∉ m.rest ∧ lf ∉ m.rest
  fields : ∀ field ∈ m.fields, field.Sound
  length : m.body.length < sizeLimit
  lengthField :
    (m.fields.filter HeaderField.isLength).map (fun field => trim field.value) =
        [digits m.body.length] ∨
      m.body = [] ∧ m.fields.filter HeaderField.isLength = []

theorem isSpace_of_isBlank {c : UInt8} (h : isBlank c = true) : isSpace (charOf c) = true := by
  simp only [isBlank, Bool.or_eq_true, decide_eq_true_eq] at h
  obtain ((rfl | rfl) | rfl) | rfl := h <;> decide

theorem Word.not_mem {text : List UInt8} (h : Word text) {c : UInt8} (hc : isSpace (charOf c)) :
    c ∉ text := fun hmem => absurd hc (Bool.eq_false_iff.mp (h.visible c hmem))

theorem Word.extract {text : List UInt8} (h : Word text) {tail : List UInt8}
    (htail : ∀ c ∈ tail.head?, c = 32) : Assembly.extract (text ++ tail) = (text, tail) := by
  have hskip : (text ++ tail).dropWhile (fun c => isSpace (charOf c)) = text ++ tail := by
    obtain ⟨c, word, rfl⟩ := List.exists_cons_of_ne_nil h.nonempty
    rw [List.cons_append, List.dropWhile_cons_of_neg]
    simp [h.visible c List.mem_cons_self]
  have hvisible : ∀ c ∈ text, (!isSpace (charOf c)) = true := by
    intro c hc
    rw [h.visible c hc]
    rfl
  have hstop : tail.takeWhile (fun c => !isSpace (charOf c)) = [] ∧
      tail.dropWhile (fun c => !isSpace (charOf c)) = tail := by
    cases tail with
    | nil => exact ⟨rfl, rfl⟩
    | cons c tail =>
        rw [htail c rfl]
        exact ⟨rfl, rfl⟩
  rw [Assembly.extract, hskip, List.takeWhile_append_of_pos hvisible,
    List.dropWhile_append_of_pos hvisible, hstop.1, hstop.2, List.append_nil]

theorem Word.rdropWhile_append {text : List UInt8} (h : Word text) (before tail : List UInt8) :
    (before ++ text ++ tail).rdropWhile isBlank = before ++ text ++ tail.rdropWhile isBlank := by
  induction tail using List.reverseRecOn with
  | nil =>
      rw [List.rdropWhile_nil, List.append_nil, List.rdropWhile_eq_self_iff]
      intro hnonempty hblank
      rw [List.getLast_append_of_ne_nil _ h.nonempty] at hblank
      have hvisible := h.visible _ (List.getLast_mem h.nonempty)
      rw [isSpace_of_isBlank hblank] at hvisible
      cases hvisible
  | append_singleton tail c ih =>
      rw [← List.append_assoc]
      by_cases hblank : isBlank c = true
      · rw [List.rdropWhile_concat_pos _ _ _ hblank, List.rdropWhile_concat_pos _ _ _ hblank, ih]
      · rw [List.rdropWhile_concat_neg _ _ _ hblank, List.rdropWhile_concat_neg _ _ _ hblank,
          List.append_assoc]

variable {m : Message} (h : m.Sound)
include h

theorem Sound.clean : Clean m.startLine := by
  have hline {c : UInt8} (hc : isSpace (charOf c) = true) (hrest : c ∉ m.rest) (hne : c ≠ 32) :
      c ∉ m.startLine := by
    unfold startLine
    simp only [List.mem_append, List.mem_cons, not_or]
    exact ⟨h.method.not_mem hc, hne, h.target.not_mem hc, hne, hrest⟩
  refine ⟨fun hnil => h.method.nonempty (List.append_eq_nil_iff.mp hnil).1, ?_, ?_⟩
  · exact hline (by decide) h.rest.1 (by decide)
  · exact hline (by decide) h.rest.2 (by decide)

theorem Sound.find_terminator (extra : List UInt8) :
    find terminator (m.bytes ++ extra) = some m.header.length := by
  have hfields : ∀ line ∈ m.fields.map HeaderField.line, Clean line := by
    intro line hline
    obtain ⟨field, hfield, rfl⟩ := List.mem_map.mp hline
    exact (h.fields field hfield).clean
  rw [bytes, List.append_assoc]
  exact find_headerBlock h.clean hfields (m.body ++ extra)

theorem Sound.contentLength_eq : contentLength m.header = m.body.length := by
  have hfields : ∀ line ∈ m.fields.map HeaderField.line, Clean line := by
    intro line hline
    obtain ⟨field, hfield, rfl⟩ := List.mem_map.mp hline
    exact (h.fields field hfield).clean
  rw [header, contentLength_headerBlock h.clean hfields, foldl_fields h.fields]
  obtain hone | ⟨hbody, hnone⟩ := h.lengthField
  · obtain ⟨field, hfield, hvalue⟩ := List.map_eq_singleton_iff.mp hone
    rw [hfield, List.map_cons, List.map_nil, List.getLastD_cons, List.getLastD_nil,
      declared_of_trim hvalue h.length]
  · rw [hbody, hnone]
    rfl

theorem Sound.trim_startLine : ∃ tail, trim m.startLine = m.method ++ 32 :: (m.target ++ tail) ∧
    ∀ c ∈ tail.head?, c = 32 := by
  refine ⟨(32 :: m.rest).rdropWhile isBlank, ?_, fun c hc => ?_⟩
  · obtain ⟨c, word, hword⟩ := List.exists_cons_of_ne_nil h.method.nonempty
    have hstart : m.startLine.dropWhile isBlank = m.startLine := by
      rw [startLine, hword, List.cons_append, List.dropWhile_cons_of_neg]
      intro hblank
      have hvisible := h.method.visible c (hword ▸ List.mem_cons_self)
      rw [isSpace_of_isBlank hblank] at hvisible
      cases hvisible
    have hsplit : m.startLine = (m.method ++ [32]) ++ m.target ++ 32 :: m.rest := by
      simp [startLine]
    rw [trim, hstart, hsplit, h.target.rdropWhile_append]
    simp
  · obtain ⟨rest, hrest⟩ := List.rdropWhile_prefix isBlank (l := 32 :: m.rest)
    cases htail : (32 :: m.rest).rdropWhile isBlank with
    | nil =>
        rw [htail] at hc
        cases hc
    | cons first tail =>
        rw [htail] at hc hrest
        cases hc
        exact (List.cons.inj hrest).1

theorem Sound.requestParts_eq : requestParts m.header = (m.method, m.target) := by
  obtain ⟨line, hline, hlines⟩ := lines_headerBlock h.clean (m.fields.map HeaderField.line)
  obtain ⟨tail, htrim, htail⟩ := h.trim_startLine
  have hfirst : trim line = m.method ++ 32 :: (m.target ++ tail) := by
    obtain rfl | rfl := hline
    · exact htrim
    · exact (trim_cr _).trans htrim
  unfold requestParts
  have htarget : Assembly.extract (32 :: (m.target ++ tail)) = (m.target, tail) :=
    h.target.extract htail
  rw [header, hlines, List.headD_cons, hfirst, h.method.extract (by simp)]
  dsimp only
  rw [htarget]

theorem Sound.received (hlimit : m.header.length + 4 ≤ readLimit)
    (hbody : m.body.length ≤ readLimit) (extra : List UInt8)
    (cut : Segmentation bufferSize (m.bytes ++ extra)) :
    handleClient cut.chunks = .request ⟨m.method, m.target, m.body⟩ := by
  have hend := h.find_terminator extra
  have hchunks := cut.ne_nil
  obtain ⟨chunks, hjoined, hsized⟩ := cut
  have hheader : (m.bytes ++ extra).take m.header.length = m.header := by
    rw [bytes, List.append_assoc, List.append_assoc, List.take_left]
  have hrest : (m.bytes ++ extra).drop (m.header.length + 4) = m.body ++ extra := by
    rw [bytes, List.append_assoc, List.append_assoc, ← List.drop_drop, List.drop_left]
    rfl
  rw [← hjoined] at hend hheader hrest
  have hread := Assembly.handleClient_eq hchunks hend hlimit
  rw [hheader, h.contentLength_eq, hrest, h.requestParts_eq] at hread
  rw [hread hbody, List.take_left]

end Message

/-- However a message is cut and whatever follows it, `handleClient` reads back what was
written. -/
theorem handleClient_reads_message {m : Message} (h : m.Sound)
    (hlimit : m.header.length + 4 ≤ readLimit) (hbody : m.body.length ≤ readLimit)
    (extra : List UInt8) (cut : Segmentation bufferSize (m.bytes ++ extra)) :
    handleClient cut.chunks = .request ⟨m.method, m.target, m.body⟩ :=
  h.received hlimit hbody extra cut

def putConfiguration : Message where
  method := ascii "PUT"
  target := ascii "/api/configuration"
  rest := ascii "HTTP/1.1"
  fields :=
    [headerField (ascii "Host") (ascii "localhost:8080"),
      headerField (ascii "Content-Type") (ascii "application/json"),
      ⟨ascii "content-length", digits 18⟩]
  body := ascii "\x7b\"automatic\":true\x7d"

theorem putConfiguration_sound : putConfiguration.Sound where
  method := ⟨by decide +kernel, by decide +kernel⟩
  target := ⟨by decide +kernel, by decide +kernel⟩
  rest := by decide +kernel
  fields := by
    simp only [putConfiguration, List.forall_mem_cons]
    refine ⟨⟨?_, ?_⟩, ⟨?_, ?_⟩, ⟨?_, ?_⟩, List.forall_mem_nil _⟩
    all_goals decide +kernel
  length := by decide +kernel
  lengthField := Or.inl (by decide +kernel)

def putConfigurationCut :
    Segmentation bufferSize (putConfiguration.bytes ++ putConfiguration.bytes) where
  chunks :=
    [putConfiguration.bytes.take 100, putConfiguration.bytes.drop 100 ++ putConfiguration.bytes]
  joined := by decide +kernel
  sized := by decide +kernel

theorem handleClient_reads_message_put :
    handleClient putConfigurationCut.chunks =
      .request ⟨putConfiguration.method, putConfiguration.target, putConfiguration.body⟩ :=
  handleClient_reads_message putConfiguration_sound (by decide +kernel) (by decide +kernel)
    putConfiguration.bytes putConfigurationCut

end EdgeAllocator.Assembly
