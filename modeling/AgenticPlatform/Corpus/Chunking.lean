import AgenticPlatform.Foundation.Text
import AgenticPlatform.Workloads.Reindex

/-!
# Cutting a document into chunks

Bytes become text by the suffix of their file, the text is cut at its headings, a section
into paragraphs, and the paragraphs are packed up to a number of tokens. What the standard
library makes of bytes, HTML and CSV, the digest and the tokenizer are parameters.
-/
namespace AgenticPlatform.Corpus
open AgenticPlatform.Foundation

abbrev Chars := List Char

structure Tokenizer (τ : Type*) where
  encode : Chars → List τ
  decode : List τ → Chars

/-- What `HTMLParser` finds. -/
inductive HtmlEvent where
  | startTag (tag : String)
  | endTag (tag : String)
  | data (text : Chars)

structure ChunkingEnv (τ : Type*) where
  tokenizer : Tokenizer τ
  /-- `data.decode("utf-8")`, with replacements where that fails. -/
  decode : Bytes → Chars
  htmlEvents : Chars → List HtmlEvent
  /-- `csv.reader`, or the text of its error. -/
  csvRows : Chars → Except String (List (List Chars))
  /-- The first sixteen hexadecimal digits of the SHA-1 of the UTF-8 bytes. -/
  sha1 : Chars → String
  reprText : String → String

def targetTokens : Nat := 420
def minTokens : Nat := 60
def overlapTokens : Nat := 60

inductive ExtractError where
  | unsupportedDocument (message : String)
  | csvError (message : String)
deriving DecidableEq

/-! ## Extraction -/

def skipTags : List String := ["script", "style", "noscript", "template"]

def blockTags : List String :=
  ["p", "div", "br", "li", "tr", "section", "article", "table", "blockquote", "pre"]

def headingMark : String → Option Chars
  | "h1" => some ['#']
  | "h2" => some ['#', '#']
  | "h3" => some ['#', '#', '#']
  | "h4" => some ['#', '#', '#', '#']
  | "h5" => some ['#', '#', '#', '#', '#']
  | "h6" => some ['#', '#', '#', '#', '#', '#']
  | _ => none

structure TextExtractor where
  parts : List Chars
  skipping : Nat

def TextExtractor.handle (s : TextExtractor) : HtmlEvent → TextExtractor
  | .startTag tag =>
    if tag ∈ skipTags then { s with skipping := s.skipping + 1 }
    else
      match headingMark tag with
      | some mark => { s with parts := s.parts ++ ['\n' :: '\n' :: mark ++ [' ']] }
      | none => if tag ∈ blockTags then { s with parts := s.parts ++ [['\n']] } else s
  | .endTag tag =>
    if tag ∈ skipTags ∧ s.skipping ≠ 0 then { s with skipping := s.skipping - 1 }
    else
      match headingMark tag with
      | some _ => { s with parts := s.parts ++ [['\n', '\n']] }
      | none => if tag ∈ blockTags then { s with parts := s.parts ++ [['\n']] } else s
  | .data text => if s.skipping = 0 then { s with parts := s.parts ++ [text] } else s

def htmlText (events : List HtmlEvent) : Chars :=
  (events.foldl TextExtractor.handle ⟨[], 0⟩).parts.flatten

/-- `header: value`, for the cells of a row that are not blank. -/
def csvPairs (header row : List Chars) : List Chars :=
  (row.zipIdx.filter (fun cell => stripChars cell.1 ≠ [])).map (fun cell =>
    stripChars (header[cell.2]?.getD ("column " ++ Nat.repr (cell.2 + 1)).toList) ++ [':', ' '] ++
      stripChars cell.1)

def csvText : List (List Chars) → Chars
  | [] => []
  | header :: rows =>
    let lines := (rows.filter (fun row => ∃ cell ∈ row, stripChars cell ≠ [])).map (csvPairs header)
    ['\n', '\n'].intercalate
      ((lines.filter (fun pairs => pairs ≠ [])).map (fun pairs => ['\n'].intercalate pairs))

/-- `re.sub(r"\n{3,}", "\n\n", raw)`, after so many line breaks in a row. -/
def collapseBreaks : Nat → Chars → Chars
  | _, [] => []
  | breaks, c :: cs =>
    if c = '\n' then
      if breaks < 2 then c :: collapseBreaks (breaks + 1) cs else collapseBreaks breaks cs
    else c :: collapseBreaks 0 cs

section
variable {τ : Type*} (env : ChunkingEnv τ)

def extractText (filename : String) (data : Bytes) : Except ExtractError Chars :=
  let suffix := pathSuffix filename
  if suffix ∉ allowedSuffixes then
    .error (.unsupportedDocument ("no text extractor for " ++ env.reprText suffix ++
      " — supported: ['.csv', '.html', '.md', '.txt']"))
  else
    let raw := env.decode data
    if suffix = ".html" then .ok (stripChars (collapseBreaks 0 (htmlText (env.htmlEvents raw))))
    else if suffix = ".csv" then
      match env.csvRows raw with
      | .error message => .error (.csvError message)
      | .ok rows => .ok (stripChars (collapseBreaks 0 (csvText rows)))
    else .ok (stripChars (collapseBreaks 0 raw))

end

/-! ## Sections and paragraphs -/

/-- A heading, or none, and the text under it. -/
abbrev Passage := Option Chars × Chars

/-- `^(#{1,6})\s+(.*\S)\s*$`, and its second group. -/
def atxHeading (line : Chars) : Option Chars :=
  let hashes := line.takeWhile (fun c => c = '#')
  let rest := line.dropWhile (fun c => c = '#')
  if (1 ≤ hashes.length ∧ hashes.length ≤ 6) ∧ rest.head?.any isSpace ∧
    stripChars rest ≠ [] then some (stripChars rest)
  else none

structure SectionScan where
  sections : List Passage
  heading : Option Chars
  body : List Chars

/-- The sections with the open one, unless it is blank. -/
def SectionScan.closed (s : SectionScan) : List Passage :=
  if ∃ part ∈ s.body,
    stripChars part ≠ [] then s.sections ++ [(s.heading, stripChars (['\n'].intercalate s.body))]
  else s.sections

def SectionScan.line (s : SectionScan) (line : Chars) : SectionScan :=
  match atxHeading line with
  | some heading => ⟨s.closed, some heading, []⟩
  | none => { s with body := s.body ++ [line] }

def sectionsOf (text : Chars) : List Passage :=
  let found := ((text.splitOn '\n').foldl SectionScan.line ⟨[], none, []⟩).closed
  if found ≠ [] then found else if stripChars text ≠ [] then [(none, text)] else []

/-- `body.split("\n\n")`, with what has been read of the part that is open, backwards. -/
def splitBlankLines : Chars → Chars → List Chars
  | part, [] => [part.reverse]
  | part, '\n' :: '\n' :: cs => part.reverse :: splitBlankLines [] cs
  | part, c :: cs => splitBlankLines (c :: part) cs

def paragraphsOf (body : Chars) : List Chars :=
  ((splitBlankLines [] body).filter (fun part => stripChars part ≠ [])).map stripChars

/-! ## One paragraph that is too long -/

def endsSentence (sentence : Chars) : Bool :=
  sentence.head?.any (fun c => c = '.' || c = '!' || c = '?')

/-- `re.split(r"(?<=[.!?])\s+", paragraph)`: whether the white space at a cut is being skipped,
and what has been read of the sentence that is open, backwards. -/
def splitSentences : Bool → Chars → Chars → List Chars
  | _, sentence, [] => [sentence.reverse]
  | true, sentence, c :: cs =>
    if isSpace c then splitSentences true sentence cs else splitSentences false (c :: sentence) cs
  | false, sentence, c :: cs =>
    if isSpace c ∧ endsSentence sentence then sentence.reverse :: splitSentences true [] cs
    else splitSentences false (c :: sentence) cs

/-- `tokens[start : start + size]` for `start in range(0, len(tokens), size)`. -/
def slices {α : Type*} (size : Nat) (l : List α) : List (List α) :=
  (List.range ((l.length + (size - 1)) / size)).map (fun i => (l.drop (i * size)).take size)

section
variable {τ : Type*} (t : Tokenizer τ)

def Tokenizer.count (text : Chars) : Nat := (t.encode text).length

/-- The pieces that are full, and the sentences of the open one. -/
def packSentence (s : List Chars × List Chars) (sentence : Chars) : List Chars × List Chars :=
  let candidate := stripChars ([' '].intercalate (s.2 ++ [sentence]))
  if s.2 ≠ [] ∧ targetTokens <
    t.count candidate then (s.1 ++ [stripChars ([' '].intercalate s.2)], [sentence])
  else (s.1, s.2 ++ [sentence])

def packedSentences (paragraph : Chars) : List Chars :=
  let s := (splitSentences false [] paragraph).foldl (packSentence t) ([], [])
  if s.2 ≠ [] then s.1 ++ [stripChars ([' '].intercalate s.2)] else s.1

/-- A piece that is still too long is cut on tokens. -/
def cutOnTokens (piece : Chars) : List Chars :=
  if t.count piece ≤ targetTokens then [piece]
  else (slices targetTokens (t.encode piece)).map (fun tokens => stripChars (t.decode tokens))

def splitOversized (paragraph : Chars) : List Chars :=
  ((packedSentences t paragraph).flatMap (cutOnTokens t)).filter (fun piece => piece ≠ [])

/-! ## One section -/

def overlapPrefix (text : Chars) : Chars :=
  let tokens := t.encode text
  if tokens.length ≤ overlapTokens then text
  else stripChars (t.decode (tokens.drop (tokens.length - overlapTokens)))

/-- The pieces of a section that are full, and the open one. -/
abbrev Packing := List Passage × Chars

/-- The pieces with the open one, unless it is empty. -/
def Packing.closed (heading : Option Chars) (s : Packing) : List Passage :=
  if s.2 ≠ [] then s.1 ++ [(heading, s.2)] else s.1

def packParagraph (heading : Option Chars) (s : Packing) (paragraph : Chars) : Packing :=
  if targetTokens < t.count paragraph then
    (s.closed heading ++ (splitOversized t paragraph).map (fun piece => (heading, piece)), [])
  else
    let candidate := if s.2 ≠ [] then stripChars (s.2 ++ ['\n', '\n'] ++ paragraph) else paragraph
    if s.2 ≠ [] ∧ targetTokens < t.count candidate then
      (s.1 ++ [(heading, s.2)], stripChars (overlapPrefix t s.2 ++ ['\n', '\n'] ++ paragraph))
    else (s.1, candidate)

/-- The four things that can happen to a paragraph: it is cut, what is open is full, nothing
is open, it goes behind what is open. -/
theorem packParagraph_cases (heading : Option Chars) (s : Packing) (paragraph : Chars) :
    (targetTokens < t.count paragraph ∧ packParagraph t heading s paragraph =
      (s.closed heading ++ (splitOversized t paragraph).map (fun piece => (heading, piece)),
        [])) ∨ (t.count paragraph ≤ targetTokens ∧ s.2 ≠ [] ∧ packParagraph t heading s paragraph =
        (s.1 ++ [(heading, s.2)], stripChars (overlapPrefix t s.2 ++ ['\n', '\n'] ++ paragraph))) ∨
      (t.count paragraph ≤ targetTokens ∧ s.2 = [] ∧
        packParagraph t heading s paragraph = (s.1, paragraph)) ∨
      (s.2 ≠ [] ∧ t.count (stripChars (s.2 ++ ['\n', '\n'] ++ paragraph)) ≤ targetTokens ∧
        packParagraph t heading s paragraph =
        (s.1, stripChars (s.2 ++ ['\n', '\n'] ++ paragraph))) := by
  simp only [packParagraph]
  by_cases hlong : targetTokens < t.count paragraph
  · exact Or.inl ⟨hlong, if_pos hlong⟩
  · have hshort : t.count paragraph ≤ targetTokens := Nat.not_lt.mp hlong
    rw [if_neg hlong]
    by_cases hopen : s.2 = []
    · refine Or.inr (Or.inr (Or.inl ⟨hshort, hopen, ?_⟩))
      simp [hopen]
    · rw [if_pos hopen]
      by_cases hfull : targetTokens < t.count (stripChars (s.2 ++ ['\n', '\n'] ++ paragraph))
      · exact Or.inr (Or.inl ⟨hshort, hopen, if_pos ⟨hopen, hfull⟩⟩)
      · exact Or.inr (Or.inr (Or.inr ⟨hopen, Nat.not_lt.mp hfull, if_neg (fun h => hfull h.2)⟩))

def packSection (s : Passage) : List Passage :=
  ((paragraphsOf s.2).foldl (packParagraph t s.1) ([], [])).closed s.1

def piecesOf (text : Chars) : List Passage := (sectionsOf text).flatMap (packSection t)

/-- A runt is merged backwards under an equal heading. -/
def mergePiece (merged : List Passage) (piece : Passage) : List Passage :=
  match merged.getLast? with
  | some last =>
    if last.1 = piece.1 ∧ t.count piece.2 < minTokens then
      merged.dropLast ++ [(piece.1, last.2 ++ ['\n', '\n'] ++ piece.2)]
    else merged ++ [piece]
  | none => merged ++ [piece]

def passagesOf (text : Chars) : List Passage := (piecesOf t text).foldl (mergePiece t) []

end

/-! ## The chunks -/

/-- The text under its heading. -/
def Passage.text : Passage → Chars
  | (some heading, body) => if heading ≠ [] then heading ++ ['\n', '\n'] ++ body else body
  | (none, body) => body

section
variable {τ : Type*} (env : ChunkingEnv τ)

def canonicalId (text : Chars) : String := "c_" ++ env.sha1 (stripChars text)

/-- The chunks, and the ids seen. -/
def addChunk (s : List Chunk × List String) (p : Passage) : List Chunk × List String :=
  let identity := canonicalId env p.text
  if identity ∈ s.2 then s
  else (s.1 ++ [⟨identity, s.1.length, String.ofList p.text, p.1.map String.ofList⟩],
    identity :: s.2)

def chunkDocument (filename : String) (data : Bytes) : Except ExtractError (List Chunk) :=
  match extractText env filename data with
  | .error e => .error e
  | .ok text =>
    if text = [] then .ok []
    else .ok ((passagesOf env.tokenizer text).foldl (addChunk env) ([], [])).1

end

end AgenticPlatform.Corpus
