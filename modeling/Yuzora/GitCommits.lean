import Yuzora.GitBatch
/-!
# GitCommits — what a commit object tells

Headers up to the first empty line, and a message behind it.  A header goes on in the lines that begin with a blank, so
what stands in them is never a header of its own.
-/
namespace Yuzora
namespace Git

open List Option
open Pieces Decimal Utf8

/-! ## The object read -/

structure CommitMeta where
  subject : List Char
  body : List Char
  authorName : List Char
  authorEmail : List Char
  timestamp : Int
  parents : List String
deriving DecidableEq

def objectError (why : String) : List Char := ("git commit object " ++ why).toList

/-- The headers, with the lines that go on with them; nothing where the first line goes on with none. -/
def foldHeaders : List (List Char) → List (List Char) → Option (List (List Char))
  | headers, [] => some headers
  | headers, line :: lines =>
    if line.head? = some ' ' then
      headers.getLast?.bind fun last => foldHeaders (headers.dropLast ++ [last ++ '\n' :: line.tail]) lines
    else foldHeaders (headers ++ [line]) lines

def stripWord (word line : List Char) : Option (List Char) :=
  if word <+: line then some (line.drop word.length) else none

def PARENT : List Char := "parent ".toList
def AUTHOR : List Char := "author ".toList

def readHeaders : List (List Char) → List String → Option (List Char) →
    Except (List Char) (List String × Option (List Char))
  | [], parents, author => .ok (parents, author)
  | header :: headers, parents, author =>
    match stripWord PARENT header with
    | some parent =>
      let parent := trim (String.ofList parent)
      if isFullOid parent then readHeaders headers (parents ++ [toAsciiLowercase parent]) author
      else .error (objectError "has a malformed parent")
    | none => readHeaders headers parents ((stripWord AUTHOR header).or author)

def splitLast (c : Char) (s : List Char) : Option (List Char × List Char) :=
  (splitOnce [c] s.reverse).map fun parts => (parts.2.reverse, parts.1.reverse)

def firstWord (s : List Char) : Option (List Char) :=
  let word := (s.dropWhile isWhitespace).takeWhile fun c => !isWhitespace c
  if word = [] then none else some word

def parseIdentLine (line : List Char) : Except (List Char) (List Char × List Char × Int) :=
  match splitLast '<' line with
  | none => .error (objectError "author is missing an email")
  | some (name, rest) =>
    match splitOnce ['>'] rest with
    | none => .error (objectError "author is missing an email terminator")
    | some (email, rest) =>
      match firstWord rest with
      | none => .error (objectError "author is missing a timestamp")
      | some word =>
        match parseI64 word with
        | none => .error (objectError "author has a malformed timestamp")
        | some timestamp => .ok ((trim (String.ofList name)).toList, email, timestamp)

/-- `trim_end_matches(['\n', '\r'])` -/
def trimLineEnds (s : List Char) : List Char := (s.reverse.dropWhile fun c => c = '\n' ∨ c = '\r').reverse

/-- The first line of a message, and the rest of it behind an empty line. -/
def messageParts (message : List Char) : List Char × List Char :=
  match splitOnce ['\n'] (trimLineEnds message) with
  | none => (trimLineEnds message, [])
  | some (subject, rest) => (subject, trimLineEnds (if rest.head? = some '\n' then rest.tail else rest))

def parseCommitObject (raw : Bytes) : Except (List Char) CommitMeta :=
  match splitOnce ['\n', '\n'] (lossy raw) with
  | none => .error (objectError "missing header/message separator")
  | some (header, message) =>
    match foldHeaders [] (pieces '\n' header) with
    | none => .error (objectError "has a dangling continuation line")
    | some headers =>
      (readHeaders headers [] none).bind fun (parents, author) =>
        match author with
        | none => .error (objectError "missing author")
        | some line =>
          (parseIdentLine line).bind fun (authorName, authorEmail, timestamp) =>
            let parts := messageParts message
            .ok { subject := parts.1, body := parts.2, authorName, authorEmail, timestamp, parents }

/-! ## The object written -/

/-- Who wrote a commit, and when. -/
structure Ident where
  name : List Char
  email : List Char
  time : Int
  zone : List Char
  namePlain : ∀ c ∈ name, c ≠ '<' ∧ c ≠ '>' ∧ c ≠ '\n'
  emailPlain : ∀ c ∈ email, c ≠ '<' ∧ c ≠ '>' ∧ c ≠ '\n'
  zonePlain : ∀ c ∈ zone, c ≠ '<' ∧ c ≠ '\n'
  low : -(2 : Int) ^ 63 ≤ time
  high : time < 2 ^ 63

/-- Any other header: a word, and a value of one or more lines, which may look like headers. -/
structure HeaderField where
  key : List Char
  first : List Char
  more : List (List Char)
  nonempty : key ≠ []
  keyPlain : ' ' ∉ key ∧ '\n' ∉ key
  other : key ≠ "parent".toList ∧ key ≠ "author".toList
  firstPlain : '\n' ∉ first
  morePlain : ∀ line ∈ more, '\n' ∉ line

structure Commit where
  leading : List HeaderField
  parents : List GitOid
  author : Ident
  later : List HeaderField
  message : List Char

def Ident.rest (ident : Ident) : List Char := ident.email ++ '>' :: ' ' :: (decimalInt ident.time ++ ' ' :: ident.zone)

def Ident.text (ident : Ident) : List Char := ident.name ++ ' ' :: '<' :: ident.rest

abbrev Group : Type := List Char × List (List Char)

def Group.lines (group : Group) : List (List Char) := group.1 :: group.2.map (' ' :: ·)

def Group.whole (group : Group) : List Char := group.1 ++ group.2.flatMap ('\n' :: ·)

def HeaderField.group (field : HeaderField) : Group := (field.key ++ ' ' :: field.first, field.more)

def Commit.groups (commit : Commit) : List Group :=
  commit.leading.map HeaderField.group ++ (commit.parents.map fun oid => (PARENT ++ oid.text.toList, [])) ++
    (AUTHOR ++ commit.author.text, []) :: commit.later.map HeaderField.group

def Commit.text (commit : Commit) : List Char :=
  ['\n'].intercalate (commit.groups.flatMap Group.lines) ++ '\n' :: '\n' :: commit.message

/-- How a message is told: its first line, and the rest without an empty line before it and line ends behind it. -/
def MessageRead (message subject body : List Char) : Prop :=
  '\n' ∉ subject ∧ ∃ ends, (∀ c ∈ ends, c = '\n' ∨ c = '\r') ∧
    (message = subject ++ ends ∧ body = [] ∨ message = subject ++ '\n' :: (body ++ ends) ∨
      message = subject ++ '\n' :: '\n' :: (body ++ ends))

/-! ## Lines and headers -/

theorem splitOnce_line {line : List Char} (h : '\n' ∉ line) (s : List Char) :
    splitOnce ['\n', '\n'] (line ++ s) = (splitOnce ['\n', '\n'] s).map fun parts => (line ++ parts.1, parts.2) := by
  induction line with
  | nil =>
    rw [nil_append]
    cases splitOnce ['\n', '\n'] s <;> rfl
  | cons c line ih =>
    have hc : ¬ ['\n', '\n'] <+: c :: (line ++ s) := fun hp =>
      h (mem_cons.2 (.inl (cons_prefix_cons.1 hp).1))
    rw [cons_append, splitOnce, if_neg hc, ih fun hm => h (mem_cons_of_mem _ hm), Option.map_map]
    rfl

theorem splitOnce_between {c : Char} (hc : c ≠ '\n') (s : List Char) : splitOnce ['\n', '\n'] ('\n' :: c :: s) =
    (splitOnce ['\n', '\n'] (c :: s)).map fun parts => ('\n' :: parts.1, parts.2) := by
  have hno : ¬ ['\n', '\n'] <+: '\n' :: c :: s := fun hp =>
    hc (cons_prefix_cons.1 (cons_prefix_cons.1 hp).2).1.symm
  rw [splitOnce, if_neg hno]

/-- **The headers end at the first empty line.** -/
theorem splitOnce_lines {lines : List (List Char)} (hne : lines ≠ []) (h : ∀ line ∈ lines, line ≠ [] ∧ '\n' ∉ line)
    (message : List Char) : splitOnce ['\n', '\n'] (['\n'].intercalate lines ++ '\n' :: '\n' :: message) =
      some (['\n'].intercalate lines, message) := by
  induction lines with
  | nil => exact absurd rfl hne
  | cons line lines ih =>
    have hline := (h line mem_cons_self).2
    cases lines with
    | nil =>
      have hend : splitOnce ['\n', '\n'] ('\n' :: '\n' :: message) = some ([], message) := by
        rfl
      rw [intercalate_singleton, splitOnce_line hline, hend, map_some, append_nil]
    | cons next lines =>
      have hrest := ih (cons_ne_nil _ _) fun l hl => h l (mem_cons_of_mem _ hl)
      obtain ⟨hnext, hplain⟩ := h next (mem_cons_of_mem _ mem_cons_self)
      obtain ⟨c, tail, rfl⟩ := exists_cons_of_ne_nil hnext
      have hc : c ≠ '\n' := fun heq => hplain (heq ▸ mem_cons_self)
      obtain ⟨s, hs⟩ : ∃ s, ['\n'].intercalate ((c :: tail) :: lines) = c :: s := by
        cases lines with
        | nil => exact ⟨tail, intercalate_singleton⟩
        | cons after lines => exact ⟨_, by rw [intercalate_cons_cons]; rfl⟩
      rw [hs] at hrest
      rw [intercalate_cons_cons, hs]
      rw [append_assoc, append_assoc, splitOnce_line hline, singleton_append, cons_append,
        splitOnce_between hc, ← cons_append, hrest, map_some, map_some, append_assoc,
        singleton_append]

theorem foldHeaders_more (headers rest : List (List Char)) (first : List Char) (more : List (List Char)) :
    foldHeaders (headers ++ [first]) (more.map (' ' :: ·) ++ rest) =
      foldHeaders (headers ++ [first ++ more.flatMap ('\n' :: ·)]) rest := by
  induction more generalizing first with
  | nil => rw [map_nil, nil_append, flatMap_nil, append_nil]
  | cons line more ih =>
    rw [map_cons, cons_append, foldHeaders, head?_cons, if_pos rfl, getLast?_concat, bind_some,
      dropLast_concat, tail_cons, ih, flatMap_cons, append_assoc]

theorem foldHeaders_groups (groups : List Group) (h : ∀ group ∈ groups, group.1.head? ≠ some ' ')
    (headers : List (List Char)) :
    foldHeaders headers (groups.flatMap Group.lines) = some (headers ++ groups.map Group.whole) := by
  induction groups generalizing headers with
  | nil => rw [flatMap_nil, foldHeaders, map_nil, append_nil]
  | cons group groups ih =>
    rw [flatMap_cons, Group.lines, cons_append, foldHeaders, if_neg (h group mem_cons_self),
      foldHeaders_more, ih fun g hg => h g (mem_cons_of_mem _ hg), map_cons, append_assoc]
    rfl

theorem stripWord_append (word rest : List Char) : stripWord word (word ++ rest) = some rest := by
  rw [stripWord, if_pos (prefix_append _ _), drop_left]

theorem stripWord_other {word key : List Char} (hword : ' ' ∉ word) (hkey : ' ' ∉ key) (hne : key ≠ word)
    (rest : List Char) : stripWord (word ++ [' ']) (key ++ ' ' :: rest) = none := by
  refine if_neg fun ⟨behind, hbehind⟩ => hne ?_
  rw [append_assoc, singleton_append] at hbehind
  have hcut := congrArg (cut ' ') hbehind
  rw [cut_append hword, cut_append hkey] at hcut
  exact (Prod.mk.inj hcut).1.symm

theorem PARENT_eq : PARENT = "parent".toList ++ [' '] := rfl
theorem AUTHOR_eq : AUTHOR = "author".toList ++ [' '] := rfl

theorem group_whole (field : HeaderField) :
    field.group.whole = field.key ++ ' ' :: (field.first ++ field.more.flatMap ('\n' :: ·)) := by
  rw [HeaderField.group, Group.whole, append_assoc]
  rfl

theorem readHeaders_fields (fields : List HeaderField) (headers : List (List Char)) (parents : List String)
    (author : Option (List Char)) :
    readHeaders ((fields.map HeaderField.group).map Group.whole ++ headers) parents author =
      readHeaders headers parents author := by
  induction fields with
  | nil => rfl
  | cons field fields ih =>
    have hparent : stripWord PARENT field.group.whole = none := by
      rw [group_whole, PARENT_eq]
      exact stripWord_other (by decide) field.keyPlain.1 field.other.1 _
    have hauthor : stripWord AUTHOR field.group.whole = none := by
      rw [group_whole, AUTHOR_eq]
      exact stripWord_other (by decide) field.keyPlain.1 field.other.2 _
    rw [map_cons, map_cons, cons_append, readHeaders, hparent]
    simp only [hauthor, none_or]
    exact ih

theorem readHeaders_parents (oids : List GitOid) (headers : List (List Char)) (parents : List String)
    (author : Option (List Char)) :
    readHeaders ((oids.map fun oid => ((PARENT ++ oid.text.toList, []) : Group)).map Group.whole ++ headers)
      parents author = readHeaders headers (parents ++ oids.map GitOid.text) author := by
  induction oids generalizing parents with
  | nil => rw [map_nil, map_nil, nil_append, map_nil, append_nil]
  | cons oid oids ih =>
    have hwhole : Group.whole (PARENT ++ oid.text.toList, []) = PARENT ++ oid.text.toList := append_nil _
    rw [map_cons, map_cons, cons_append, readHeaders, hwhole, stripWord_append]
    simp only [String.ofList_toList, oid.trim_text, if_pos oid.full, oid.lower]
    rw [ih, append_assoc]
    rfl

/-! ## Who and when -/

theorem splitLast_append {c : Char} {b : List Char} (h : c ∉ b) (a : List Char) :
    splitLast c (a ++ c :: b) = some (a, b) := by
  have hreverse : (a ++ c :: b).reverse = b.reverse ++ c :: [] ++ a.reverse := by
    rw [reverse_append, reverse_cons]
  rw [splitLast, hreverse, splitOnce_append _ fun hm => h (mem_reverse.1 hm), map_some,
    reverse_reverse, reverse_reverse]

theorem firstWord_append {word : List Char} (hne : word ≠ []) (h : ∀ c ∈ word, isWhitespace c = false)
    (rest : List Char) : firstWord (' ' :: (word ++ ' ' :: rest)) = some word := by
  obtain ⟨c, tail, rfl⟩ := exists_cons_of_ne_nil hne
  have hstart : (' ' :: ((c :: tail) ++ ' ' :: rest)).dropWhile isWhitespace = (c :: tail) ++ ' ' :: rest := by
    rw [dropWhile_cons_of_pos (by decide), cons_append, dropWhile_cons_of_neg]
    rw [h c mem_cons_self]
    exact Bool.false_ne_true
  have hword : ((c :: tail) ++ ' ' :: rest).takeWhile (fun c => !isWhitespace c) = c :: tail := by
    rw [takeWhile_append_of_pos fun d hd => by rw [h d hd]; rfl, takeWhile_cons_of_neg (by decide),
      append_nil]
  unfold firstWord
  simp only [hstart, hword, if_neg hne]

theorem trim_blank (s : List Char) : trim (String.ofList (s ++ [' '])) = trim (String.ofList s) := by
  have htrim : trimEnd (trimStart (s ++ [' '])) = trimEnd (trimStart s) := by
    induction s with
    | nil => rfl
    | cons c s ih =>
      unfold trimStart at ih ⊢
      by_cases hc : isWhitespace c = true
      · rw [cons_append, dropWhile_cons_of_pos hc, dropWhile_cons_of_pos hc, ih]
      · rw [cons_append, dropWhile_cons_of_neg hc, dropWhile_cons_of_neg hc, ← cons_append]
        unfold trimEnd
        rw [reverse_append, reverse_singleton, singleton_append, dropWhile_cons_of_pos (by decide)]
  unfold trim
  rw [String.toList_ofList, String.toList_ofList, htrim]

theorem parseIdentLine_text (ident : Ident) :
    parseIdentLine ident.text = .ok ((trim (String.ofList ident.name)).toList, ident.email, ident.time) := by
  have htime : ∀ {c : Char}, c.isDigit = false → c ≠ '-' → c ∉ decimalInt ident.time := by
    intro c hc hminus hm
    rcases mem_decimalInt hm with h | h
    · rw [hc] at h
      cases h
    · exact hminus h
  have hrest : '<' ∉ ident.rest := by
    intro hm
    rcases mem_append.1 hm with hm | hm
    · exact (ident.emailPlain _ hm).1 rfl
    · rcases mem_cons.1 hm with hm | hm
      · exact absurd hm (by decide)
      · rcases mem_cons.1 hm with hm | hm
        · exact absurd hm (by decide)
        · rcases mem_append.1 hm with hm | hm
          · exact htime (by decide) (by decide) hm
          · rcases mem_cons.1 hm with hm | hm
            · exact absurd hm (by decide)
            · exact (ident.zonePlain _ hm).1 rfl
  have hline : ident.text = (ident.name ++ [' ']) ++ '<' :: ident.rest := by
    rw [Ident.text, append_assoc]
    rfl
  have hemail : splitOnce ['>'] ident.rest = some (ident.email, ' ' :: (decimalInt ident.time ++ ' ' :: ident.zone)) := by
    have hparts : ident.rest = ident.email ++ '>' :: [] ++ (' ' :: (decimalInt ident.time ++ ' ' :: ident.zone)) := by
      rw [Ident.rest, append_assoc]
      rfl
    rw [hparts]
    exact splitOnce_append _ fun hm => (ident.emailPlain _ hm).2.1 rfl
  have hword : firstWord (' ' :: (decimalInt ident.time ++ ' ' :: ident.zone)) = some (decimalInt ident.time) := by
    refine firstWord_append (decimalInt_ne_nil _) (fun c hc => ?_) _
    rcases mem_decimalInt hc with hdigit | rfl
    · refine isWhitespace_of_isHexDigit ?_
      rw [isHexDigit, hdigit]
      rfl
    · decide
  unfold parseIdentLine
  rw [hline, splitLast_append hrest]
  simp only [hemail, hword, parseI64_decimalInt ident.low ident.high, trim_blank]

/-! ## The message -/

theorem trimLineEnds_append (s : List Char) : ∃ ends, (∀ c ∈ ends, c = '\n' ∨ c = '\r') ∧ s = trimLineEnds s ++ ends := by
  refine ⟨(s.reverse.takeWhile fun c => c = '\n' ∨ c = '\r').reverse, fun c hc => ?_, ?_⟩
  · have hall := all_eq_true.1 (all_takeWhile (p := fun c => decide (c = '\n' ∨ c = '\r'))) c
      (mem_reverse.1 hc)
    exact of_decide_eq_true hall
  · rw [trimLineEnds, ← reverse_append, takeWhile_append_dropWhile, reverse_reverse]

theorem splitOnce_none {s : List Char} (h : splitOnce ['\n'] s = none) : '\n' ∉ s := by
  intro hm
  obtain ⟨a, b, rfl, ha⟩ := eq_append_cons_of_mem hm
  have hsome := @splitOnce_append '\n' [] a b ha
  rw [append_assoc, singleton_append, h] at hsome
  cases hsome

theorem splitOnce_some {s a b : List Char} (h : splitOnce ['\n'] s = some (a, b)) : s = a ++ '\n' :: b ∧ '\n' ∉ a := by
  have hm : '\n' ∈ s := by
    induction s generalizing a b with
    | nil => cases h
    | cons c s ih =>
      rw [splitOnce] at h
      by_cases hp : ['\n'] <+: c :: s
      · exact mem_cons.2 (.inl (cons_prefix_cons.1 hp).1)
      · rw [if_neg hp] at h
        obtain ⟨parts, hparts, -⟩ := map_eq_some_iff.1 h
        exact mem_cons_of_mem _ (ih hparts)
  obtain ⟨a', b', rfl, ha⟩ := eq_append_cons_of_mem hm
  have hsome := @splitOnce_append '\n' [] a' b' ha
  rw [append_assoc, singleton_append, h, Option.some.injEq, Prod.mk.injEq] at hsome
  obtain ⟨rfl, rfl⟩ := hsome
  exact ⟨rfl, ha⟩

/-- **A message is told by its first line and the rest of it.** -/
theorem messageParts_read (message : List Char) :
    MessageRead message (messageParts message).1 (messageParts message).2 := by
  obtain ⟨ends, hends, hmessage⟩ := trimLineEnds_append message
  unfold messageParts
  cases hsplit : splitOnce ['\n'] (trimLineEnds message) with
  | none => exact ⟨splitOnce_none hsplit, ends, hends, .inl ⟨hmessage, rfl⟩⟩
  | some parts =>
    obtain ⟨subject, rest⟩ := parts
    obtain ⟨htrimmed, hplain⟩ := splitOnce_some hsplit
    obtain ⟨ends', hends', hbody⟩ := trimLineEnds_append (if rest.head? = some '\n' then rest.tail else rest)
    refine ⟨hplain, ends' ++ ends, fun c hc => ?_, ?_⟩
    · rcases mem_append.1 hc with hc | hc
      · exact hends' c hc
      · exact hends c hc
    · rw [htrimmed] at hmessage
      rw [← append_assoc (trimLineEnds _) ends' ends, ← hbody]
      by_cases hhead : rest.head? = some '\n'
      · obtain ⟨tail, rfl⟩ := head?_eq_some_iff.1 hhead
        refine .inr (.inr ?_)
        rw [if_pos hhead, tail_cons, hmessage, append_assoc]
        rfl
      · refine .inr (.inl ?_)
        rw [if_neg hhead, hmessage, append_assoc]
        rfl

/-! ## The whole object -/

theorem newline_notMem_rest (ident : Ident) : '\n' ∉ ident.text := by
  intro hm
  rcases mem_append.1 hm with hm | hm
  · exact (ident.namePlain _ hm).2.2 rfl
  rcases mem_cons.1 hm with hm | hm
  · exact absurd hm (by decide)
  rcases mem_cons.1 hm with hm | hm
  · exact absurd hm (by decide)
  rcases mem_append.1 hm with hm | hm
  · exact (ident.emailPlain _ hm).2.2 rfl
  rcases mem_cons.1 hm with hm | hm
  · exact absurd hm (by decide)
  rcases mem_cons.1 hm with hm | hm
  · exact absurd hm (by decide)
  rcases mem_append.1 hm with hm | hm
  · rcases mem_decimalInt hm with h | h
    · exact absurd h (by decide)
    · exact absurd h (by decide)
  rcases mem_cons.1 hm with hm | hm
  · exact absurd hm (by decide)
  · exact (ident.zonePlain _ hm).2 rfl

/-- What the lines of a header are: none is empty, and the first begins with no blank. -/
def Group.Plain (group : Group) : Prop :=
  group.1 ≠ [] ∧ group.1.head? ≠ some ' ' ∧ ∀ line ∈ group.lines, '\n' ∉ line

theorem field_plain (field : HeaderField) : field.group.Plain := by
  obtain ⟨c, key, hkey⟩ := exists_cons_of_ne_nil field.nonempty
  refine ⟨?_, ?_, ?_⟩
  · rw [HeaderField.group, hkey]
    exact cons_ne_nil _ _
  · rw [HeaderField.group, hkey]
    intro h
    refine field.keyPlain.1 ?_
    rw [hkey, ← Option.some.inj h]
    exact mem_cons_self
  · intro line hline hm
    rcases mem_cons.1 hline with rfl | hline
    · rcases mem_append.1 hm with hm | hm
      · exact field.keyPlain.2 hm
      · rcases mem_cons.1 hm with hm | hm
        · exact absurd hm (by decide)
        · exact field.firstPlain hm
    · obtain ⟨more, hmore, rfl⟩ := mem_map.1 hline
      rcases mem_cons.1 hm with hm | hm
      · exact absurd hm (by decide)
      · exact field.morePlain more hmore hm

theorem head_parent (s : List Char) : (PARENT ++ s).head? = some 'p' := rfl
theorem head_author (s : List Char) : (AUTHOR ++ s).head? = some 'a' := rfl

theorem parent_plain (oid : GitOid) : Group.Plain (PARENT ++ oid.text.toList, []) := by
  refine ⟨append_ne_nil_of_left_ne_nil (by decide) _, ?_, fun line hline hm => ?_⟩
  · rw [head_parent]
    decide
  rw [mem_singleton.1 hline] at hm
  rcases mem_append.1 hm with hm | hm
  · exact absurd hm (by decide)
  · exact absurd (oid.isHexDigit_of_mem hm) (by decide)

theorem author_plain (ident : Ident) : Group.Plain (AUTHOR ++ ident.text, []) := by
  refine ⟨append_ne_nil_of_left_ne_nil (by decide) _, ?_, fun line hline hm => ?_⟩
  · rw [head_author]
    decide
  rw [mem_singleton.1 hline] at hm
  rcases mem_append.1 hm with hm | hm
  · exact absurd hm (by decide)
  · exact newline_notMem_rest ident hm

theorem groups_plain (commit : Commit) : ∀ group ∈ commit.groups, group.Plain := by
  intro group h
  rcases mem_append.1 h with h | h
  · rcases mem_append.1 h with h | h
    · obtain ⟨field, -, rfl⟩ := mem_map.1 h
      exact field_plain field
    · obtain ⟨oid, -, rfl⟩ := mem_map.1 h
      exact parent_plain oid
  · rcases mem_cons.1 h with rfl | h
    · exact author_plain commit.author
    · obtain ⟨field, -, rfl⟩ := mem_map.1 h
      exact field_plain field

theorem lines_plain (commit : Commit) : ∀ line ∈ commit.groups.flatMap Group.lines, line ≠ [] ∧ '\n' ∉ line := by
  intro line h
  obtain ⟨group, hgroup, hline⟩ := mem_flatMap.1 h
  obtain ⟨hne, -, hplain⟩ := groups_plain commit group hgroup
  refine ⟨?_, hplain line hline⟩
  rcases mem_cons.1 hline with rfl | hline
  · exact hne
  · obtain ⟨more, -, rfl⟩ := mem_map.1 hline
    exact cons_ne_nil _ _

theorem lines_ne_nil (commit : Commit) : commit.groups.flatMap Group.lines ≠ [] := by
  have hmem : (AUTHOR ++ commit.author.text, []) ∈ commit.groups :=
    mem_append_right _ mem_cons_self
  exact ne_nil_of_mem (mem_flatMap.2 ⟨_, hmem, mem_cons_self⟩)

theorem readHeaders_groups (commit : Commit) : readHeaders (commit.groups.map Group.whole) [] none =
    .ok (commit.parents.map GitOid.text, some commit.author.text) := by
  have hauthor : Group.whole (AUTHOR ++ commit.author.text, []) = AUTHOR ++ commit.author.text := append_nil _
  have hnone : stripWord PARENT (AUTHOR ++ commit.author.text) = none :=
    if_neg fun ⟨_, h⟩ => absurd (List.cons.inj h).1 (by decide)
  have hlater := readHeaders_fields commit.later [] (commit.parents.map GitOid.text) (some commit.author.text)
  rw [append_nil] at hlater
  rw [Commit.groups, map_append, map_append, append_assoc, readHeaders_fields, readHeaders_parents,
    nil_append, map_cons, readHeaders, hauthor, hnone]
  simp only [stripWord_append, some_or]
  rw [hlater, readHeaders]

def Commit.read (commit : Commit) : CommitMeta where
  subject := (messageParts commit.message).1
  body := (messageParts commit.message).2
  authorName := (trim (String.ofList commit.author.name)).toList
  authorEmail := commit.author.email
  timestamp := commit.author.time
  parents := commit.parents.map GitOid.text

/-- **A commit object is read whole.** -/
theorem parseCommitObject_text (commit : Commit) : parseCommitObject (toUtf8 commit.text) = .ok commit.read := by
  have hheader := splitOnce_lines (lines_ne_nil commit) (lines_plain commit) commit.message
  have hpieces := pieces_intercalate (lines_ne_nil commit) fun line hline => (lines_plain commit line hline).2
  have hgroups := foldHeaders_groups commit.groups (fun group h => (groups_plain commit group h).2.1) []
  unfold parseCommitObject
  rw [lossy_toUtf8, Commit.text, hheader]
  simp only [hpieces, hgroups, nil_append, readHeaders_groups, Except.bind, parseIdentLine_text]
  rfl

/-- What a commit object is read as: its parents in order, its author without blanks around the name, its time, and
its message. -/
structure ReadFrom (commit : Commit) (told : CommitMeta) : Prop where
  parents : told.parents = commit.parents.map GitOid.text
  authorName : told.authorName = (trim (String.ofList commit.author.name)).toList
  authorEmail : told.authorEmail = commit.author.email
  timestamp : told.timestamp = commit.author.time
  message : MessageRead commit.message told.subject told.body

theorem read_readFrom (commit : Commit) : ReadFrom commit commit.read where
  parents := rfl
  authorName := by rw [Commit.read]
  authorEmail := rfl
  timestamp := rfl
  message := messageParts_read commit.message

/-- **What git answers is read**: an answer is settled unless a size in it reaches past the last `usize`, and every commit
object is read as what it was written from. -/
theorem commits_read_iff (stdout : Bytes) (oids : List GitOid) : (BatchSettled stdout oids ↔ ¬ Overflows stdout oids) ∧
      ∀ commit : Commit, ∃ told, parseCommitObject (toUtf8 commit.text) = .ok told ∧ ReadFrom commit told :=
  ⟨batchSettled_overflows stdout oids, fun commit => ⟨_, parseCommitObject_text commit, read_readFrom commit⟩⟩

end Git
end Yuzora
