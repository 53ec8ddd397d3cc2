import EdgeAllocator.Foundation.Chunks
import EdgeAllocator.Foundation.Numeral

/-! `handleClient` up to its dispatch: the request that it takes from a connection. -/
namespace EdgeAllocator.Assembly

open Foundation

def ascii (text : String) : List UInt8 := text.toList.map Char.toUInt8

def charOf (c : UInt8) : Char := Char.ofNat c.toNat

structure Request where
  method : List UInt8
  target : List UInt8
  body : List UInt8
  deriving DecidableEq, Repr

inductive Received where
  | closed
  /-- The answer is 400, "Malformed HTTP request". -/
  | malformed
  | request (request : Request)
  deriving DecidableEq, Repr

def isBlank (c : UInt8) : Bool := c = 32 || c = 9 || c = 13 || c = 10

def trim (value : List UInt8) : List UInt8 := (value.dropWhile isBlank).rdropWhile isBlank

def lines : List UInt8 → List (List UInt8)
  | [] => []
  | c :: text =>
      if c = 10 then [] :: lines text
      else match lines text with
        | [] => [[c]]
        | line :: later => (c :: line) :: later

def extract (text : List UInt8) : List UInt8 × List UInt8 :=
  let text := text.dropWhile fun c => isSpace (charOf c)
  (text.takeWhile fun c => !isSpace (charOf c), text.dropWhile fun c => !isSpace (charOf c))

def sizeLimit : Nat := 2 ^ 64

def readLine (expectedBody : Nat) (headerLine : List UInt8) : Nat :=
  match find (ascii ":") headerLine with
  | none => expectedBody
  | some colon =>
      let name := trim (headerLine.take colon)
      let value := trim (headerLine.drop (colon + 1))
      if name = ascii "Content-Length" ∨ name = ascii "content-length" then
        match readUnsigned sizeLimit (value.map charOf) with
        | .ok n => n
        | .error _ => 0
      else expectedBody

def contentLength (headerBlock : List UInt8) : Nat :=
  (lines headerBlock).tail.foldl readLine 0

def terminator : List UInt8 := ascii "\r\n\r\n"

def readLimit : Nat := 1024 * 1024

def wantsHeader (request : List UInt8) : Bool :=
  (find terminator request).isNone && decide (request.length < readLimit)

def wantsBody (expectedBody : Nat) (body : List UInt8) : Bool :=
  decide (body.length < expectedBody) && decide (body.length < readLimit)

def requestParts (headerBlock : List UInt8) : List UInt8 × List UInt8 :=
  let (method, rest) := extract (trim ((lines headerBlock).headD []))
  (method, (extract rest).1)

/-- `handleClient` up to its dispatch, on what `recv` delivers; behind the last chunk it
reports the end of the stream. -/
def handleClient (chunks : List (List UInt8)) : Received :=
  let (request, later) := readWhile wantsHeader [] chunks
  -- only the end of the stream leaves the loop while more is wanted
  if wantsHeader request then .closed
  else
    match find terminator request with
    | none => .malformed
    | some headerEnd =>
        let headerBlock := request.take headerEnd
        let (method, target) := requestParts headerBlock
        let expectedBody := contentLength headerBlock
        let (body, _) := readWhile (wantsBody expectedBody) (request.drop (headerEnd + 4)) later
        .request ⟨method, target, body.take expectedBody⟩

theorem terminator_length : terminator.length = 4 := by decide

section Loops

variable {stream : List UInt8} {chunks : List (List UInt8)} {headerEnd : Nat}

/-- The header loop reads a prefix of the stream that holds the whole header. -/
theorem readHeader_reaches (hchunks : ∀ chunk ∈ chunks, chunk ≠ [])
    (hend : find terminator chunks.flatten = some headerEnd)
    (hlimit : headerEnd + 4 ≤ readLimit) :
    find terminator (readWhile wantsHeader [] chunks).1 = some headerEnd := by
  have hjoined : (readWhile wantsHeader [] chunks).1 ++
      (readWhile wantsHeader [] chunks).2.flatten = chunks.flatten :=
    readWhile_joined wantsHeader [] chunks
  obtain hwants | hover := readWhile_stops wantsHeader [] hchunks
  · rw [wantsHeader, Bool.and_eq_false_iff] at hwants
    obtain hfound | hlong := hwants
    · cases hat : find terminator (readWhile wantsHeader [] chunks).1 with
      | none => simp [hat] at hfound
      | some i =>
          have hsame := find_append (readWhile wantsHeader [] chunks).2.flatten hat
          rw [hjoined, hend] at hsame
          exact hsame.symm
    · have hlength := of_decide_eq_false hlong
      rw [← hjoined] at hend
      exact find_of_append hend (by rw [terminator_length]; omega)
  · rw [hover, List.flatten_nil, List.append_nil] at hjoined
    rw [hjoined]
    exact hend

theorem readBody_reaches {expectedBody : Nat} {text : List UInt8}
    (hchunks : ∀ chunk ∈ chunks, chunk ≠ []) (hlimit : expectedBody ≤ readLimit) :
    (readWhile (wantsBody expectedBody) text chunks).1.take expectedBody =
      (text ++ chunks.flatten).take expectedBody := by
  have hjoined := readWhile_joined (wantsBody expectedBody) text chunks
  rw [← hjoined]
  obtain hwants | hover := readWhile_stops (wantsBody expectedBody) text hchunks
  · rw [wantsBody, Bool.and_eq_false_iff, decide_eq_false_iff_not, decide_eq_false_iff_not]
      at hwants
    rw [List.take_append_of_le_length (by omega)]
  · rw [hover, List.flatten_nil, List.append_nil]

theorem handleClient_eq (hchunks : ∀ chunk ∈ chunks, chunk ≠ [])
    (hend : find terminator chunks.flatten = some headerEnd)
    (hlimit : headerEnd + 4 ≤ readLimit)
    (hlength : contentLength (chunks.flatten.take headerEnd) ≤ readLimit) :
    handleClient chunks =
      .request
        { method := (requestParts (chunks.flatten.take headerEnd)).1
          target := (requestParts (chunks.flatten.take headerEnd)).2
          body := (chunks.flatten.drop (headerEnd + 4)).take
            (contentLength (chunks.flatten.take headerEnd)) } := by
  have hfound := readHeader_reaches hchunks hend hlimit
  have hjoined : (readWhile wantsHeader [] chunks).1 ++
      (readWhile wantsHeader [] chunks).2.flatten = chunks.flatten :=
    readWhile_joined wantsHeader [] chunks
  have hsuffix := readWhile_suffix wantsHeader [] chunks
  unfold handleClient
  generalize readWhile wantsHeader [] chunks = result at hfound hjoined hsuffix ⊢
  obtain ⟨request, later⟩ := result
  dsimp only at hfound hjoined hsuffix ⊢
  have hwithin := find_within hfound
  rw [terminator_length] at hwithin
  have hheader : chunks.flatten.take headerEnd = request.take headerEnd := by
    rw [← hjoined, List.take_append_of_le_length (by omega)]
  have hrest : chunks.flatten.drop (headerEnd + 4) =
      request.drop (headerEnd + 4) ++ later.flatten := by
    rw [← hjoined, List.drop_append_of_le_length hwithin]
  have hwants : wantsHeader request = false := by
    rw [wantsHeader, hfound]
    rfl
  rw [hheader] at hlength ⊢
  rw [hwants, hfound, hrest, ← readBody_reaches
    (fun chunk hchunk => hchunks chunk (hsuffix.subset hchunk)) hlength]
  rfl

end Loops

def bufferSize : Nat := 8192

/-- However a request is cut, `handleClient` takes the same one from the connection, with
the bytes behind the header for its body. -/
theorem handleClient_of_segmentation {stream : List UInt8} {headerEnd : Nat}
    (hend : find terminator stream = some headerEnd) (hlimit : headerEnd + 4 ≤ readLimit)
    (hlength : contentLength (stream.take headerEnd) ≤ readLimit)
    (henough : headerEnd + 4 + contentLength (stream.take headerEnd) ≤ stream.length)
    (first second : Segmentation bufferSize stream) :
    ∃ request, handleClient first.chunks = .request request ∧
      handleClient second.chunks = .request request ∧
      requestParts (stream.take headerEnd) = (request.method, request.target) ∧
      request.body =
        (stream.drop (headerEnd + 4)).take (contentLength (stream.take headerEnd)) ∧
      request.body.length = contentLength (stream.take headerEnd) := by
  have htaken (cut : Segmentation bufferSize stream) :
      handleClient cut.chunks =
        .request
          { method := (requestParts (stream.take headerEnd)).1
            target := (requestParts (stream.take headerEnd)).2
            body := (stream.drop (headerEnd + 4)).take
              (contentLength (stream.take headerEnd)) } := by
    have hchunks := cut.ne_nil
    obtain ⟨chunks, rfl, hsized⟩ := cut
    exact handleClient_eq hchunks hend hlimit hlength
  refine ⟨_, htaken first, htaken second, rfl, rfl, ?_⟩
  rw [List.length_take, List.length_drop]
  omega

def sample : List UInt8 := ascii "PUT /a HTTP/1.1\r\ncontent-length: 2\r\n\r\nhi!"

def sampleWhole : Segmentation bufferSize sample where
  chunks := [sample]
  joined := by decide +kernel
  sized := by decide +kernel

def sampleCut : Segmentation bufferSize sample where
  chunks := [sample.take 36, (sample.drop 36).take 3, sample.drop 39]
  joined := by decide +kernel
  sized := by decide +kernel

theorem handleClient_of_segmentation_sample :
    ∃ request, handleClient sampleWhole.chunks = .request request ∧
      handleClient sampleCut.chunks = .request request ∧
      requestParts (sample.take 34) = (request.method, request.target) ∧
      request.body = (sample.drop (34 + 4)).take (contentLength (sample.take 34)) ∧
      request.body.length = contentLength (sample.take 34) :=
  handleClient_of_segmentation (by decide +kernel) (by decide) (by decide +kernel)
    (by decide +kernel) sampleWhole sampleCut

end EdgeAllocator.Assembly
