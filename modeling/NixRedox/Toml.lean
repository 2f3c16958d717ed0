import NixRedox.Attempts
import NixRedox.BasicStrings
import NixRedox.KeyedMap

set_option autoImplicit false

/- The part of TOML with bare and dotted keys, basic strings, truth values, arrays, inline
tables and headers of one key: how a document is read. Nothing here knows what it says. -/
namespace NixRedox.Toml

open Attempts (exists_left exists_right mapM_cons_eq_some mapM_eq_some)
open BasicStrings (codeChar hexValue prepend readBody readString)
open KeyedMap (lookup_none mem_of_lookup)

/-- The tables of headers and dotted keys may get more entries, an inline table is complete. -/
inductive Value where
  | string (text : String)
  | bool (value : Bool)
  | array (values : List Value)
  | table (entries : List (String × Value))
  | inline (entries : List (String × Value))

/-- Entries in the order in which they are read. -/
abbrev Table := List (String × Value)

section Reading

def isBlank (c : Char) : Bool := c = ' ' || c = '\t'

def isBareChar (c : Char) : Bool := c.isAlphanum || c = '_' || c = '-'

/-- The characters that stand for themselves in a basic string. -/
def plainChar (c : Char) : Bool := c = '\t' || (0x20 ≤ c.toNat && c.toNat ≠ 0x7F)

def skipBlank (text : List Char) : List Char := text.dropWhile isBlank

def skipLines (text : List Char) : List Char := text.dropWhile fun c => isBlank c || c = '\n'

/-- Only the end of the line is left. -/
def lineEnds (text : List Char) : Bool :=
  match skipBlank text with
  | [] => true
  | c :: _ => c = '\n'

def trim (text : List Char) : List Char := (skipBlank (skipBlank text).reverse).reverse

def bareKey (segment : List Char) : Option String :=
  let name := trim segment
  if name ≠ [] ∧ name.all isBareChar then some (String.ofList name) else none

/-- The keys between the dots. -/
def keyPath (text : List Char) : Option (List String) := (text.splitOn '.').mapM bareKey

/-- A dotted key and what is behind the equals sign. -/
def readKey (text : List Char) : Option (List String × List Char) :=
  match text.dropWhile (· ≠ '=') with
  | [] => none
  | _ :: rest => (keyPath (text.takeWhile (· ≠ '='))).map fun path => (path, rest)

def replace (name : String) (value : Value) (table : Table) : Table :=
  table.map fun entry => if entry.1 = name then (name, value) else entry

/-- No key is given twice, and a dotted key adds to the tables on its way. -/
def insert : List String → Value → Table → Option Table
  | [], _, _ => none
  | [name], value, table =>
      match table.lookup name with
      | none => some (table ++ [(name, value)])
      | some _ => none
  | name :: next :: path, value, table =>
      match table.lookup name with
      | none => (insert (next :: path) value []).map fun sub => table ++ [(name, .table sub)]
      | some (.table sub) =>
          (insert (next :: path) value sub).map fun sub => replace name (.table sub) table
      | some _ => none

mutual

def readValue : Nat → List Char → Option (Value × List Char)
  | 0, _ => none
  | fuel + 1, text =>
      match text with
      | '"' :: _ => (readString plainChar text).map fun read => (.string (.ofList read.1), read.2)
      | '[' :: rest =>
          (readElements fuel (skipLines rest)).map fun read => (.array read.1, read.2)
      | '\x7b' :: rest =>
          match skipBlank rest with
          | '\x7d' :: behind => some (.inline [], behind)
          | _ => (readInline fuel [] rest).map fun read => (.inline read.1, read.2)
      | 't' :: 'r' :: 'u' :: 'e' :: rest => some (.bool true, rest)
      | 'f' :: 'a' :: 'l' :: 's' :: 'e' :: rest => some (.bool false, rest)
      | _ => none

/-- The elements of an array up to the closing bracket. -/
def readElements : Nat → List Char → Option (List Value × List Char)
  | 0, _ => none
  | fuel + 1, text =>
      match text with
      | ']' :: rest => some ([], rest)
      | _ =>
          (readValue fuel text).bind fun read =>
            match skipLines read.2 with
            | ',' :: rest =>
                (readElements fuel (skipLines rest)).map fun others =>
                  (read.1 :: others.1, others.2)
            | ']' :: rest => some ([read.1], rest)
            | _ => none

/-- The entries of an inline table up to the closing brace. -/
def readInline : Nat → Table → List Char → Option (Table × List Char)
  | 0, _, _ => none
  | fuel + 1, table, text =>
      (readKey text).bind fun key =>
        (readValue fuel (skipBlank key.2)).bind fun read =>
          (insert key.1 read.1 table).bind fun table =>
            match skipBlank read.2 with
            | ',' :: rest => readInline fuel table rest
            | '\x7d' :: rest => some (table, rest)
            | _ => none

end

/-- A header: the name of the table whose entries follow, and the rest of the text. -/
def readHeader (text : List Char) : Option (String × List Char) :=
  match text.dropWhile (· ≠ ']') with
  | [] => none
  | _ :: rest => (bareKey (text.takeWhile (· ≠ ']'))).map fun name => (name, rest)

/-- An entry: a key and its value. Every call of `readValue` takes a character, or is about
an element of an array. -/
def readEntry (text : List Char) : Option ((List String × Value) × List Char) :=
  (readKey text).bind fun key =>
    let behind := skipBlank key.2
    (readValue (2 * behind.length + 1) behind).map fun read => ((key.1, read.1), read.2)

/-- The lines of a document, where the path is that of the table they belong to. -/
def readItems : Nat → List String → Table → List Char → Option Table
  | 0, _, _, _ => none
  | fuel + 1, path, document, text =>
      match skipLines text with
      | [] => some document
      | '[' :: rest =>
          (readHeader rest).bind fun header =>
            (insert [header.1] (.table []) document).bind fun document =>
              if lineEnds header.2 then readItems fuel [header.1] document header.2 else none
      | item =>
          (readEntry item).bind fun entry =>
            (insert (path ++ entry.1.1) entry.1.2 document).bind fun document =>
              if lineEnds entry.2 then readItems fuel path document entry.2 else none

/-- Every item is of one character at least. -/
def readDocument (text : List Char) : Option Table := readItems (text.length + 1) [] [] text

end Reading

section Keys

/-- A key that needs no quotes. -/
def Bare (name : String) : Prop := name ≠ "" ∧ ∀ c ∈ name.toList, isBareChar c

instance : DecidablePred Bare := fun name =>
  decidable_of_iff (name ≠ "" ∧ name.toList.all isBareChar) (by rw [Bare, List.all_eq_true])

theorem isBareChar_not_blank {c : Char} (bare : isBareChar c) : isBlank c = false := by
  by_contra blank
  have marks : c = ' ' ∨ c = '\t' := by
    simpa [isBlank, or_iff_not_imp_left] using blank
  rcases marks with rfl | rfl <;> exact absurd bare (by decide)

theorem ne_of_isBareChar {c d : Char} (bare : isBareChar c) (other : isBareChar d = false) :
    c ≠ d := by
  rintro rfl
  rw [bare] at other
  cases other

theorem skipBlank_append {lead text : List Char} (blank : ∀ c ∈ lead, isBlank c)
    (starts : ∀ c, text.head? = some c → isBlank c = false) : skipBlank (lead ++ text) = text := by
  unfold skipBlank
  rw [List.dropWhile_append_of_pos blank]
  cases text with
  | nil => rfl
  | cons c rest => exact List.dropWhile_cons_of_neg (by simp [starts c rfl])

theorem Bare.ne_nil {name : String} (bare : Bare name) : name.toList ≠ [] :=
  fun empty => bare.1 (String.toList_eq_nil_iff.mp empty)

theorem bareKey_written {name : String} (bare : Bare name) {lead trail : List Char}
    (blank : ∀ c ∈ lead, isBlank c) (blankToo : ∀ c ∈ trail, isBlank c) :
    bareKey (lead ++ name.toList ++ trail) = some name := by
  have some_ := bare.ne_nil
  have starts : ∀ c, (name.toList ++ trail).head? = some c → isBlank c = false := by
    intro c first
    rw [List.head?_append_of_ne_nil _ some_] at first
    exact isBareChar_not_blank (bare.2 c (List.mem_of_mem_head? first))
  have ends : ∀ c, name.toList.reverse.head? = some c → isBlank c = false := by
    intro c last
    exact isBareChar_not_blank (bare.2 c (List.mem_reverse.mp (List.mem_of_mem_head? last)))
  have trimmed : trim (lead ++ name.toList ++ trail) = name.toList := by
    rw [trim, List.append_assoc, skipBlank_append blank starts, List.reverse_append,
      skipBlank_append (fun c inside => blankToo c (List.mem_reverse.mp inside)) ends,
      List.reverse_reverse]
  have all : name.toList.all isBareChar := List.all_eq_true.mpr bare.2
  simp only [bareKey, trimmed]
  rw [if_pos ⟨some_, all⟩, String.ofList_toList]

theorem bareKey_bare {segment : List Char} {name : String} (read : bareKey segment = some name) :
    Bare name := by
  simp only [bareKey, Option.ite_none_right_eq_some, Option.some.injEq] at read
  obtain ⟨⟨some_, all⟩, rfl⟩ := read
  constructor
  · intro empty
    apply some_
    have chars := congrArg String.toList empty
    rwa [String.toList_ofList] at chars
  · rw [String.toList_ofList]
    exact List.all_eq_true.mp all

theorem keyPath_bare {text : List Char} {path : List String} (read : keyPath text = some path) :
    ∀ name ∈ path, Bare name := by
  intro name inside
  obtain ⟨segment, _, own⟩ := exists_left (mapM_eq_some.mp read) inside
  exact bareKey_bare own

theorem Bare.notMem {name : String} (bare : Bare name) {c : Char} (other : isBareChar c = false) :
    c ∉ name.toList :=
  fun inside => ne_of_isBareChar (bare.2 c inside) other rfl

/-- A bare key that is written before an equals sign. -/
theorem readKey_written {name : String} (bare : Bare name) {lead : List Char}
    (blank : ∀ c ∈ lead, isBlank c) (rest : List Char) :
    readKey (lead ++ name.toList ++ ' ' :: '=' :: rest) = some ([name], rest) := by
  have before : ∀ c ∈ lead ++ name.toList ++ [' '], decide (c ≠ '=') = true := by
    intro c inside
    apply decide_eq_true
    rintro rfl
    simp only [List.mem_append, List.mem_singleton] at inside
    rcases inside with (early | own) | late
    · exact absurd (blank _ early) (by decide)
    · exact bare.notMem (by decide) own
    · exact absurd late (by decide)
  have dotless : '.' ∉ lead ++ name.toList ++ [' '] := by
    intro inside
    simp only [List.mem_append, List.mem_singleton] at inside
    rcases inside with (early | own) | late
    · exact absurd (blank _ early) (by decide)
    · exact bare.notMem (by decide) own
    · exact absurd late (by decide)
  have path : keyPath (lead ++ name.toList ++ [' ']) = some [name] := by
    rw [keyPath, List.splitOn_eq_singleton dotless, mapM_cons_eq_some]
    exact ⟨name, [], bareKey_written bare blank (by simp [isBlank]), rfl, rfl⟩
  have whole : lead ++ name.toList ++ ' ' :: '=' :: rest =
      lead ++ name.toList ++ [' '] ++ '=' :: rest := by simp
  rw [readKey, whole, List.dropWhile_append_of_pos before, List.takeWhile_append_of_pos before]
  simpa using path

end Keys

section Insertion

variable {name : String} {value : Value} {table front : Table}

theorem insert_single (fresh : table.lookup name = none) :
    insert [name] value table = some (table ++ [(name, value)]) := by
  rw [insert, fresh]

theorem lookup_append_single (fresh : front.lookup name = none) :
    (front ++ [(name, value)]).lookup name = some value := by
  rw [List.lookup_append, fresh, Option.none_or, List.lookup_cons_self]

/-- An entry of the table that was begun last. -/
theorem insert_last (fresh : front.lookup name = none) {sub : Table} {key : String}
    (freshToo : sub.lookup key = none) :
    insert [name, key] value (front ++ [(name, .table sub)]) =
      some (front ++ [(name, .table (sub ++ [(key, value)]))]) := by
  have others : front.map (fun entry => if entry.1 = name then (name, Value.table
      (sub ++ [(key, value)])) else entry) = front := by
    refine (List.map_congr_left ?_).trans (List.map_id _)
    intro entry inside
    have other : entry.1 ≠ name := by
      intro same
      exact absurd (List.lookup_eq_none_iff.mp fresh entry inside) (by simp [same])
    exact if_neg other
  rw [insert, lookup_append_single fresh]
  simp [insert_single freshToo, replace, others]

end Insertion

section Written

/-- A text that is read as a value, whatever is behind it. -/
structure Written (text : List Char) (value : Value) : Prop where
  starts : ∃ c rest, text = c :: rest ∧ isBlank c = false ∧ c ≠ '\n' ∧ c ≠ ']'
  reads : ∀ fuel rest, text.length < fuel → readValue fuel (text ++ rest) = some (value, rest)

theorem skipBlank_cons {c : Char} (inked : isBlank c = false) (rest : List Char) :
    skipBlank (c :: rest) = c :: rest :=
  List.dropWhile_cons_of_neg (by simp [inked])

theorem skipLines_cons {c : Char} (inked : isBlank c = false) (ends : c ≠ '\n')
    (rest : List Char) : skipLines (c :: rest) = c :: rest :=
  List.dropWhile_cons_of_neg (by simp [inked, ends])

theorem Written.skipBlank {text : List Char} {value : Value} (written : Written text value)
    (rest : List Char) : skipBlank (text ++ rest) = text ++ rest := by
  obtain ⟨c, more, rfl, inked, _⟩ := written.starts
  exact skipBlank_cons inked _

theorem Written.skipLines {text : List Char} {value : Value} (written : Written text value)
    (rest : List Char) : skipLines (text ++ rest) = text ++ rest := by
  obtain ⟨c, more, rfl, inked, ends, _⟩ := written.starts
  exact skipLines_cons inked ends _

theorem written_string {body text : List Char}
    (reads : ∀ rest, readString plainChar ('"' :: body ++ rest) = some (text, rest)) :
    Written ('"' :: body) (.string (.ofList text)) where
  starts := ⟨'"', body, rfl, by decide, by decide, by decide⟩
  reads := by
    intro fuel rest below
    cases fuel with
    | zero => exact absurd below (Nat.not_lt_zero _)
    | succ fuel =>
        have read := reads rest
        rw [List.cons_append] at read ⊢
        rw [readValue, read]
        rfl

/-- A value in an array, and what is behind it. -/
theorem readElements_step {text : List Char} {value : Value} (own : Written text value)
    {fuel : Nat} (below : text.length < fuel) (rest : List Char) :
    readElements (fuel + 1) (text ++ rest) =
      match skipLines rest with
      | ',' :: rest =>
          (readElements fuel (skipLines rest)).map fun others => (value :: others.1, others.2)
      | ']' :: rest => some ([value], rest)
      | _ => none := by
  have read := own.reads fuel rest below
  obtain ⟨c, more, rfl, _, _, unclosed⟩ := own.starts
  rw [List.cons_append] at read ⊢
  rw [readElements]
  · rw [read, Option.bind_some]
  · exact fun _ same => unclosed (List.cons.inj same).1

theorem skipLines_elements {texts : List (List Char)} {values : List Value}
    (each : List.Forall₂ Written texts values) (rest : List Char) :
    skipLines (List.intercalate [','] texts ++ ']' :: rest) =
      List.intercalate [','] texts ++ ']' :: rest := by
  cases each with
  | nil => exact skipLines_cons (by decide) (by decide) rest
  | @cons text value texts values own others =>
      obtain ⟨behind, same⟩ : ∃ behind, List.intercalate [','] (text :: texts) = text ++ behind := by
        cases texts <;> simp
      rw [same, List.append_assoc, own.skipLines]

theorem readElements_written {texts : List (List Char)} {values : List Value}
    (each : List.Forall₂ Written texts values) {fuel : Nat} (rest : List Char)
    (below : (List.intercalate [','] texts).length + 1 < fuel) :
    readElements fuel (List.intercalate [','] texts ++ ']' :: rest) = some (values, rest) := by
  induction each generalizing fuel with
  | nil =>
      cases fuel with
      | zero => exact absurd below (Nat.not_lt_zero _)
      | succ fuel => rfl
  | @cons text value texts values own others ih =>
      cases fuel with
      | zero => exact absurd below (Nat.not_lt_zero _)
      | succ fuel =>
          cases others with
          | nil =>
              rw [List.intercalate_singleton] at below ⊢
              rw [readElements_step own (by omega), skipLines_cons (by decide) (by decide)]
              rfl
          | @cons next other texts values first others =>
              have size : (List.intercalate [','] (text :: next :: texts)).length =
                  text.length + 1 + (List.intercalate [','] (next :: texts)).length := by
                rw [List.intercalate_cons_cons, List.length_append, List.length_append]
                rfl
              have later := @ih fuel (by omega)
              have start := skipLines_elements (.cons first others) rest
              rw [List.intercalate_cons_cons, List.append_assoc, List.append_assoc,
                readElements_step own (by omega), List.singleton_append,
                skipLines_cons (by decide) (by decide)]
              show (readElements fuel (skipLines _)).map _ = _
              rw [start, later]
              rfl

theorem written_array {texts : List (List Char)} {values : List Value}
    (each : List.Forall₂ Written texts values) :
    Written ('[' :: List.intercalate [','] texts ++ [']']) (.array values) where
  starts := ⟨'[', List.intercalate [','] texts ++ [']'], rfl, by decide, by decide, by decide⟩
  reads := by
    intro fuel rest below
    rw [List.cons_append, List.length_cons, List.length_append, List.length_singleton] at below
    cases fuel with
    | zero => exact absurd below (Nat.not_lt_zero _)
    | succ fuel =>
        rw [List.cons_append, List.cons_append, List.append_assoc, List.singleton_append, readValue,
          skipLines_elements each, readElements_written each rest (by omega)]
        rfl

/-- A key with a value that is written behind it. -/
structure Line where
  name : String
  text : List Char
  value : Value

def Line.written (line : Line) : List Char :=
  line.name.toList ++ ' ' :: '=' :: ' ' :: line.text

def Line.entry (line : Line) : String × Value := (line.name, line.value)

structure Line.Valid (line : Line) : Prop where
  bare : Bare line.name
  value : Written line.text line.value

theorem readInline_step {line : Line} (valid : line.Valid) {fuel : Nat}
    (below : line.written.length ≤ fuel) {table : Table} (fresh : line.name ∉ table.map Prod.fst)
    (rest : List Char) :
    readInline (fuel + 1) table (' ' :: (line.written ++ rest)) =
      match skipBlank rest with
      | ',' :: rest => readInline fuel (table ++ [line.entry]) rest
      | '\x7d' :: rest => some (table ++ [line.entry], rest)
      | _ => none := by
  have blank : ∀ c ∈ [' '], isBlank c := by simp [isBlank]
  have start : skipBlank (' ' :: (line.text ++ rest)) = line.text ++ rest := valid.value.skipBlank rest
  have key := readKey_written valid.bare blank (' ' :: (line.text ++ rest))
  have whole : ' ' :: (line.written ++ rest) =
      [' '] ++ line.name.toList ++ ' ' :: '=' :: ' ' :: (line.text ++ rest) := by
    simp [Line.written]
  have size : line.text.length < fuel := by
    rw [Line.written, List.length_append, List.length_cons, List.length_cons,
      List.length_cons] at below
    omega
  rw [whole, readInline, key, Option.bind_some]
  simp only [start]
  rw [valid.value.reads fuel rest size, Option.bind_some]
  simp only [insert_single (lookup_none fresh), Option.bind_some, Line.entry]

/-- The entries of an inline table, each behind a blank. -/
theorem readInline_written {line : Line} {lines : List Line}
    (valid : ∀ other ∈ line :: lines, other.Valid) {fuel : Nat} {table : Table}
    (distinct : (table.map Prod.fst ++ (line :: lines).map Line.name).Nodup) (rest : List Char)
    (below : (List.intercalate [',', ' '] ((line :: lines).map Line.written)).length < fuel) :
    readInline fuel table (' ' :: (List.intercalate [',', ' '] ((line :: lines).map Line.written) ++
        ' ' :: '\x7d' :: rest)) =
      some (table ++ (line :: lines).map Line.entry, rest) := by
  induction lines generalizing line fuel table with
  | nil =>
      cases fuel with
      | zero => exact absurd below (Nat.not_lt_zero _)
      | succ fuel =>
          have fresh : line.name ∉ table.map Prod.fst := fun inside =>
            (List.nodup_append.mp distinct).2.2 _ inside _ List.mem_cons_self rfl
          rw [List.map_singleton, List.intercalate_singleton] at below ⊢
          rw [readInline_step (valid line List.mem_cons_self) (by omega) fresh]
          rfl
  | cons next more ih =>
      cases fuel with
      | zero => exact absurd below (Nat.not_lt_zero _)
      | succ fuel =>
          have fresh : line.name ∉ table.map Prod.fst := fun inside =>
            (List.nodup_append.mp distinct).2.2 _ inside _ List.mem_cons_self rfl
          have split : List.intercalate [',', ' '] ((line :: next :: more).map Line.written) =
              line.written ++ ',' :: ' ' ::
                List.intercalate [',', ' '] ((next :: more).map Line.written) := by
            simp
          rw [split, List.length_append, List.length_cons, List.length_cons] at below
          have distinctToo : ((table ++ [line.entry]).map Prod.fst ++
              (next :: more).map Line.name).Nodup := by
            simpa [Line.entry] using distinct
          have validToo : ∀ other ∈ next :: more, other.Valid := fun other inside =>
            valid other (List.mem_cons_of_mem _ inside)
          have later := @ih next validToo fuel _ distinctToo (by omega)
          rw [split, List.append_assoc, readInline_step (valid line List.mem_cons_self) (by omega)
            fresh, List.cons_append, skipBlank_cons (by decide)]
          show readInline fuel _ (' ' :: (_ ++ _)) = _
          rw [later, List.append_assoc]
          rfl

/-- An inline table with entries. -/
theorem written_inline {line : Line} {lines : List Line}
    (valid : ∀ other ∈ line :: lines, other.Valid)
    (distinct : ((line :: lines).map Line.name).Nodup) :
    Written ('\x7b' :: ' ' :: (List.intercalate [',', ' '] ((line :: lines).map Line.written) ++
        [' ', '\x7d'])) (.inline ((line :: lines).map Line.entry)) where
  starts := ⟨'\x7b', _, rfl, by decide, by decide, by decide⟩
  reads := by
    intro fuel rest below
    rw [List.length_cons, List.length_cons, List.length_append] at below
    cases fuel with
    | zero => exact absurd below (Nat.not_lt_zero _)
    | succ fuel =>
        have entries := @readInline_written line lines valid fuel [] distinct rest (by omega)
        obtain ⟨behind, same⟩ : ∃ behind,
            List.intercalate [',', ' '] ((line :: lines).map Line.written) =
              line.written ++ behind := by
          cases lines <;> simp
        obtain ⟨c, more, name⟩ := List.exists_cons_of_ne_nil
          (valid line List.mem_cons_self).bare.ne_nil
        have bare : isBareChar c := (valid line List.mem_cons_self).bare.2 c (by simp [name])
        have start : ∀ tail, skipBlank (' ' :: c :: tail) = c :: tail :=
          skipBlank_cons (isBareChar_not_blank bare)
        rw [List.cons_append, List.cons_append, List.append_assoc, List.cons_append,
          List.singleton_append, readValue]
        rw [same, Line.written, name] at entries ⊢
        simp only [List.cons_append, start] at entries ⊢
        split
        · rename_i closed
          exact absurd (List.cons.inj closed).1 (ne_of_isBareChar bare (by decide))
        · rw [entries]
          rfl

end Written

section Documents

/-- The rest of a text after a line. -/
def NextLine (rest : List Char) : Prop := rest = [] ∨ ∃ more, rest = '\n' :: more

theorem NextLine.lineEnds {rest : List Char} (next : NextLine rest) : lineEnds rest = true := by
  rcases next with rfl | ⟨more, rfl⟩ <;> rfl

theorem readEntry_written {line : Line} (valid : line.Valid) (rest : List Char) :
    readEntry (line.written ++ rest) = some (([line.name], line.value), rest) := by
  have key := @readKey_written line.name valid.bare [] (by simp) (' ' :: (line.text ++ rest))
  have start : skipBlank (' ' :: (line.text ++ rest)) = line.text ++ rest :=
    valid.value.skipBlank rest
  have whole : line.written ++ rest =
      [] ++ line.name.toList ++ ' ' :: '=' :: ' ' :: (line.text ++ rest) := by
    simp [Line.written]
  have size : line.text.length < 2 * (line.text ++ rest).length + 1 := by
    rw [List.length_append]
    omega
  rw [whole, readEntry, key, Option.bind_some]
  simp only [start]
  rw [valid.value.reads _ rest size]
  rfl

theorem Line.Valid.head {line : Line} (valid : line.Valid) :
    ∃ c more, line.written = c :: more ∧ isBareChar c := by
  obtain ⟨c, more, name⟩ := List.exists_cons_of_ne_nil valid.bare.ne_nil
  exact ⟨c, _, by rw [Line.written, name, List.cons_append], valid.bare.2 c (by simp [name])⟩

theorem readItems_line {line : Line} (valid : line.Valid) (fuel : Nat) (path : List String)
    (document : Table) {rest : List Char} (next : NextLine rest) :
    readItems (fuel + 1) path document ('\n' :: (line.written ++ rest)) =
      (insert (path ++ [line.name]) line.value document).bind fun document =>
        readItems fuel path document rest := by
  obtain ⟨c, more, start, bare⟩ := valid.head
  have item : skipLines ('\n' :: (line.written ++ rest)) = line.written ++ rest := by
    rw [start, List.cons_append]
    exact skipLines_cons (isBareChar_not_blank bare) (ne_of_isBareChar bare (by decide)) _
  have entry := readEntry_written valid rest
  rw [readItems, item]
  split
  · rename_i empty
    rw [start, List.cons_append] at empty
    cases empty
  · rename_i header
    rw [start, List.cons_append] at header
    exact absurd (List.cons.inj header).1 (ne_of_isBareChar bare (by decide))
  · rw [entry, Option.bind_some]
    simp only [next.lineEnds, if_true]

/-- The lines of a table. -/
def linesText (lines : List Line) : List Char := lines.flatMap fun line => '\n' :: line.written

theorem linesText_cons (line : Line) (lines : List Line) :
    linesText (line :: lines) = '\n' :: (line.written ++ linesText lines) := rfl

theorem length_le_linesText (lines : List Line) : lines.length ≤ (linesText lines).length := by
  induction lines with
  | nil => exact Nat.le_refl _
  | cons line lines ih =>
      rw [linesText_cons, List.length_cons, List.length_cons, List.length_append]
      omega

theorem nextLine_linesText (lines : List Line) {rest : List Char} (next : NextLine rest) :
    NextLine (linesText lines ++ rest) := by
  cases lines with
  | nil => exact next
  | cons line lines => exact .inr ⟨_, rfl⟩

theorem readItems_lines {lines : List Line} (valid : ∀ line ∈ lines, line.Valid) (fuel : Nat)
    {name : String} {front sub : Table} (fresh : front.lookup name = none)
    (distinct : (sub.map Prod.fst ++ lines.map Line.name).Nodup) {rest : List Char}
    (next : NextLine rest) :
    readItems (fuel + lines.length) [name] (front ++ [(name, .table sub)])
        (linesText lines ++ rest) =
      readItems fuel [name] (front ++ [(name, .table (sub ++ lines.map Line.entry))]) rest := by
  induction lines generalizing sub with
  | nil => simp [linesText]
  | cons line lines ih =>
      have own := valid line List.mem_cons_self
      have freshToo : sub.lookup line.name = none := by
        apply lookup_none
        intro inside
        exact (List.nodup_append.mp distinct).2.2 _ inside _ List.mem_cons_self rfl
      have distinctToo : ((sub ++ [line.entry]).map Prod.fst ++ lines.map Line.name).Nodup := by
        simpa [Line.entry] using distinct
      have later := ih (fun other inside => valid other (List.mem_cons_of_mem _ inside)) distinctToo
      have step := readItems_line own (fuel + lines.length) [name] (front ++ [(name, .table sub)])
        (nextLine_linesText lines next)
      rw [List.singleton_append, insert_last fresh freshToo, Option.bind_some] at step
      rw [linesText_cons, List.cons_append, List.append_assoc]
      refine step.trans (later.trans ?_)
      simp

theorem bareKey_name {name : String} (bare : Bare name) : bareKey name.toList = some name := by
  have read := @bareKey_written name bare [] [] (by simp) (by simp)
  rwa [List.nil_append, List.append_nil] at read

theorem readItems_header {name : String} (bare : Bare name) (fuel : Nat) {path : List String}
    {document : Table} (fresh : document.lookup name = none) {lead rest : List Char}
    (blank : ∀ c ∈ lead, c = '\n') (next : NextLine rest) :
    readItems (fuel + 1) path document (lead ++ '[' :: (name.toList ++ ']' :: rest)) =
      readItems fuel [name] (document ++ [(name, .table [])]) rest := by
  have item : skipLines (lead ++ '[' :: (name.toList ++ ']' :: rest)) =
      '[' :: (name.toList ++ ']' :: rest) := by
    rw [skipLines, List.dropWhile_append_of_pos]
    · exact skipLines_cons (by decide) (by decide) _
    · intro c inside
      simp [blank c inside]
  have before : ∀ c ∈ name.toList, decide (c ≠ ']') = true := by
    intro c inside
    exact decide_eq_true (ne_of_isBareChar (bare.2 c inside) (by decide))
  have header : readHeader (name.toList ++ ']' :: rest) = some (name, rest) := by
    rw [readHeader, List.dropWhile_append_of_pos before, List.takeWhile_append_of_pos before]
    simp [bareKey_name bare]
  rw [readItems, item]
  simp only
  rw [header, Option.bind_some, insert_single fresh, Option.bind_some, if_pos next.lineEnds]

/-- A document of two tables. -/
theorem readDocument_written {one two : String} (bare : Bare one) (bareToo : Bare two)
    (differ : one ≠ two) {lines others : List Line} (valid : ∀ line ∈ lines ++ others, line.Valid)
    (distinct : (lines.map Line.name).Nodup) (distinctToo : (others.map Line.name).Nodup) :
    readDocument ('[' :: (one.toList ++ ']' :: (linesText lines ++
        '\n' :: '\n' :: '[' :: (two.toList ++ ']' :: linesText others)))) =
      some [(one, .table (lines.map Line.entry)), (two, .table (others.map Line.entry))] := by
  have size := length_le_linesText lines
  have sizeToo := length_le_linesText others
  generalize whole : '[' :: (one.toList ++ ']' :: (linesText lines ++
    '\n' :: '\n' :: '[' :: (two.toList ++ ']' :: linesText others))) = text
  have enough : others.length + lines.length + 3 ≤ text.length + 1 := by
    rw [← whole]
    simp only [List.length_cons, List.length_append]
    omega
  obtain ⟨spare, fuel⟩ := Nat.exists_eq_add_of_le enough
  have turns : text.length + 1 = spare + 1 + others.length + 1 + lines.length + 1 := by omega
  have freshToo : List.lookup two [(one, Value.table (lines.map Line.entry))] = none :=
    lookup_none (by simpa using differ.symm)
  have last := @readItems_lines others (fun line inside => valid line (by simp [inside])) (spare + 1)
    two [(one, .table (lines.map Line.entry))] [] freshToo (by simpa using distinctToo) [] (.inl rfl)
  have second := @readItems_header two bareToo (spare + 1 + others.length) [one]
    [(one, .table (lines.map Line.entry))] freshToo ['\n', '\n'] (linesText others) (by simp)
    (List.append_nil (linesText others) ▸ nextLine_linesText others (.inl rfl))
  have middle := @readItems_lines lines (fun line inside => valid line (by simp [inside]))
    (spare + 1 + others.length + 1) one [] [] rfl (by simpa using distinct)
    ('\n' :: '\n' :: '[' :: (two.toList ++ ']' :: linesText others)) (.inr ⟨_, rfl⟩)
  have first := @readItems_header one bare (spare + 1 + others.length + 1 + lines.length) [] [] rfl []
    (linesText lines ++ '\n' :: '\n' :: '[' :: (two.toList ++ ']' :: linesText others)) (by simp)
    (nextLine_linesText lines (.inr ⟨_, rfl⟩))
  rw [List.append_nil] at last
  rw [readDocument, turns, ← whole]
  exact first.trans (middle.trans (second.trans last))

end Documents

section Refused

/-- No character of the text before the rest is a DEL. -/
def Passes (text rest : List Char) : Prop := '\x7F' ∈ text → '\x7F' ∈ rest

theorem Passes.trans {text middle rest : List Char} (first : Passes text middle)
    (second : Passes middle rest) : Passes text rest := fun inside => second (first inside)

theorem Passes.cons {c : Char} {text rest : List Char} (other : c ≠ '\x7F')
    (passes : Passes text rest) : Passes (c :: text) rest := by
  intro inside
  rcases List.mem_cons.mp inside with same | later
  · exact absurd same.symm other
  · exact passes later

theorem Passes.append {front text rest : List Char} (other : '\x7F' ∉ front)
    (passes : Passes text rest) : Passes (front ++ text) rest := by
  intro inside
  rcases List.mem_append.mp inside with early | late
  · exact absurd early other
  · exact passes late

theorem passes_dropWhile {p : Char → Bool} (other : p '\x7F' = false) (text : List Char) :
    Passes text (text.dropWhile p) := by
  intro inside
  have whole := @List.takeWhile_append_dropWhile _ p text
  rw [← whole] at inside
  rcases List.mem_append.mp inside with early | late
  · have taken := List.mem_takeWhile_imp early
    rw [other] at taken
    cases taken
  · exact late

theorem passes_skipBlank (text : List Char) : Passes text (skipBlank text) :=
  passes_dropWhile rfl text

theorem passes_skipLines (text : List Char) : Passes text (skipLines text) :=
  passes_dropWhile rfl text

theorem codeChar_hex {digits : List Char} {own : Char} (known : codeChar digits = some own) :
    '\x7F' ∉ digits := by
  obtain ⟨code, number, _⟩ := Option.bind_eq_some_iff.mp known
  have each : ∀ (digits : List Char) (value : Nat),
      (digits.foldlM (fun value c => (hexValue c).map fun digit => 16 * value + digit) value) =
        some code → '\x7F' ∉ digits := by
    intro digits
    induction digits with
    | nil => simp
    | cons c rest ih =>
        intro value read inside
        rw [List.foldlM_cons] at read
        obtain ⟨next, digit, later⟩ := Option.bind_eq_some_iff.mp read
        rcases List.mem_cons.mp inside with rfl | behind
        · cases digit
        · exact ih next later behind
  exact each digits 0 number

theorem of_prepend {own : Char} {text read rest : List Char}
    (done : (readBody plainChar text).map (prepend own) = some (read, rest)) :
    ∃ others, readBody plainChar text = some (others, rest) := by
  obtain ⟨⟨others, behind⟩, later, same⟩ := Option.map_eq_some_iff.mp done
  cases same
  exact ⟨others, later⟩

theorem readBody_passes {text read rest : List Char}
    (done : readBody plainChar text = some (read, rest)) : Passes text rest := by
  induction text using BasicStrings.readBody.induct plainChar generalizing read with
  | case1 => cases done
  | case2 behind =>
      cases done
      exact Passes.cons (by decide) id
  | case3 a b c d behind ih =>
      rw [readBody] at done
      obtain ⟨own, known, later⟩ := Option.bind_eq_some_iff.mp done
      obtain ⟨others, body⟩ := of_prepend later
      have split : '\\' :: 'u' :: a :: b :: c :: d :: behind =
          ['\\', 'u'] ++ ([a, b, c, d] ++ behind) := rfl
      rw [split]
      refine .append (by decide) (.append (codeChar_hex known) (ih body))
  | case4 a b c d e f g h behind ih =>
      rw [readBody] at done
      obtain ⟨own, known, later⟩ := Option.bind_eq_some_iff.mp done
      obtain ⟨others, body⟩ := of_prepend later
      have split : '\\' :: 'U' :: a :: b :: c :: d :: e :: f :: g :: h :: behind =
          ['\\', 'U'] ++ ([a, b, c, d, e, f, g, h] ++ behind) := rfl
      rw [split]
      refine .append (by decide) (.append (codeChar_hex known) (ih body))
  | case5 mark behind short long ih =>
      rw [readBody] at done
      · obtain ⟨own, known, later⟩ := Option.bind_eq_some_iff.mp done
        obtain ⟨others, body⟩ := of_prepend later
        have other : mark ≠ '\x7F' := by
          rintro rfl
          cases known
        exact .cons (by decide) (.cons other (ih body))
      · exact short
      · exact long
  | case6 own behind quote short long marked unmarked ih =>
      rw [readBody, if_pos unmarked] at done
      · obtain ⟨others, body⟩ := of_prepend done
        have other : own ≠ '\x7F' := by
          rintro rfl
          exact absurd unmarked (by decide)
        exact .cons other (ih body)
      · exact quote
      · exact short
      · exact long
      · exact marked
  | case7 own behind quote short long marked unmarked =>
      rw [readBody, if_neg unmarked] at done
      · cases done
      · exact quote
      · exact short
      · exact long
      · exact marked

theorem mem_intercalate {c : Char} {separator : List Char} {parts : List (List Char)}
    (inside : c ∈ List.intercalate separator parts) : c ∈ separator ∨ ∃ part ∈ parts, c ∈ part := by
  induction parts with
  | nil => cases inside
  | cons part parts ih =>
      cases parts with
      | nil =>
          rw [List.intercalate_singleton] at inside
          exact .inr ⟨part, List.mem_cons_self, inside⟩
      | cons next parts =>
          rw [List.intercalate_cons_cons, List.append_assoc] at inside
          rcases List.mem_append.mp inside with own | later
          · exact .inr ⟨part, List.mem_cons_self, own⟩
          · rcases List.mem_append.mp later with between | behind
            · exact .inl between
            · rcases ih behind with between | ⟨other, there, own⟩
              · exact .inl between
              · exact .inr ⟨other, List.mem_cons_of_mem _ there, own⟩

theorem bareKey_plain {segment : List Char} {name : String} (read : bareKey segment = some name) :
    '\x7F' ∉ segment := by
  simp only [bareKey, Option.ite_none_right_eq_some] at read
  intro inside
  have trimmed : '\x7F' ∈ trim segment := by
    rw [trim, List.mem_reverse]
    apply passes_skipBlank
    rw [List.mem_reverse]
    exact passes_skipBlank segment inside
  exact absurd (List.all_eq_true.mp read.1.2 _ trimmed) (by decide)

theorem keyPath_plain {text : List Char} {path : List String} (read : keyPath text = some path) :
    '\x7F' ∉ text := by
  intro inside
  have whole := @List.intercalate_splitOn _ text _ _ '.'
  rw [← whole] at inside
  rcases mem_intercalate inside with dot | ⟨segment, there, own⟩
  · exact absurd dot (by decide)
  · obtain ⟨name, _, key⟩ := exists_right (mapM_eq_some.mp read) there
    exact bareKey_plain key own

theorem dropWhile_ne {mark c : Char} {text rest : List Char}
    (found : text.dropWhile (fun c => decide (c ≠ mark)) = c :: rest) : c = mark := by
  have stopped := List.head?_dropWhile_not (fun c => decide (c ≠ mark)) text
  rw [found] at stopped
  simpa using stopped

theorem readKey_passes {text rest : List Char} {path : List String}
    (read : readKey text = some (path, rest)) : Passes text rest := by
  unfold readKey at read
  split at read
  · cases read
  · rename_i c behind found
    obtain ⟨own, key, same⟩ := Option.map_eq_some_iff.mp read
    cases same
    have whole := @List.takeWhile_append_dropWhile _ (fun c => decide (c ≠ '=')) text
    rw [← whole, found, dropWhile_ne found]
    exact .append (keyPath_plain key) (.cons (by decide) id)

theorem readHeader_passes {text rest : List Char} {name : String}
    (read : readHeader text = some (name, rest)) : Passes text rest := by
  unfold readHeader at read
  split at read
  · cases read
  · rename_i c behind found
    obtain ⟨own, key, same⟩ := Option.map_eq_some_iff.mp read
    cases same
    have whole := @List.takeWhile_append_dropWhile _ (fun c => decide (c ≠ ']')) text
    rw [← whole, found, dropWhile_ne found]
    exact .append (bareKey_plain key) (.cons (by decide) id)

/-- What a fuel reads of a text has no DEL in it. -/
structure FuelPasses (fuel : Nat) : Prop where
  value : ∀ {text rest value}, readValue fuel text = some (value, rest) → Passes text rest
  elements : ∀ {text rest values}, readElements fuel text = some (values, rest) → Passes text rest
  inline : ∀ {table text rest entries}, readInline fuel table text = some (entries, rest) →
    Passes text rest

theorem readValue_step {fuel : Nat} (passes : FuelPasses fuel) {text rest : List Char}
    {value : Value} (read : readValue (fuel + 1) text = some (value, rest)) : Passes text rest := by
  rw [readValue.eq_def] at read
  simp only at read
  split at read
  · obtain ⟨⟨body, behind⟩, done, same⟩ := Option.map_eq_some_iff.mp read
    cases same
    exact .cons (by decide) (readBody_passes done)
  · obtain ⟨⟨values, behind⟩, done, same⟩ := Option.map_eq_some_iff.mp read
    cases same
    exact .cons (by decide) ((passes_skipLines _).trans (passes.elements done))
  · rename_i behind
    refine .cons (by decide) ?_
    split at read
    · rename_i closed
      cases read
      have start := passes_skipBlank behind
      rw [closed] at start
      exact start.trans (.cons (by decide) id)
    · obtain ⟨⟨entries, others⟩, done, same⟩ := Option.map_eq_some_iff.mp read
      cases same
      exact passes.inline done
  · cases read
    exact @Passes.append ['t', 'r', 'u', 'e'] _ _ (by decide) id
  · cases read
    exact @Passes.append ['f', 'a', 'l', 's', 'e'] _ _ (by decide) id
  · cases read

theorem readElements_step_passes {fuel : Nat} (passes : FuelPasses fuel) {text rest : List Char}
    {values : List Value} (read : readElements (fuel + 1) text = some (values, rest)) :
    Passes text rest := by
  rw [readElements.eq_def] at read
  simp only at read
  split at read
  · cases read
    exact .cons (by decide) id
  · obtain ⟨⟨value, behind⟩, first, later⟩ := Option.bind_eq_some_iff.mp read
    refine (passes.value first).trans ((passes_skipLines behind).trans ?_)
    split at later
    · rename_i comma
      obtain ⟨⟨others, after⟩, done, same⟩ := Option.map_eq_some_iff.mp later
      cases same
      simp only at comma
      rw [comma]
      exact .cons (by decide) ((passes_skipLines _).trans (passes.elements done))
    · rename_i closed
      cases later
      simp only at closed
      rw [closed]
      exact .cons (by decide) id
    · cases later

theorem readInline_step_passes {fuel : Nat} (passes : FuelPasses fuel) {text rest : List Char}
    {table entries : Table} (read : readInline (fuel + 1) table text = some (entries, rest)) :
    Passes text rest := by
  rw [readInline] at read
  obtain ⟨⟨path, behind⟩, key, read⟩ := Option.bind_eq_some_iff.mp read
  obtain ⟨⟨value, after⟩, own, read⟩ := Option.bind_eq_some_iff.mp read
  obtain ⟨added, _, read⟩ := Option.bind_eq_some_iff.mp read
  refine (readKey_passes key).trans ((passes_skipBlank behind).trans ?_)
  refine (passes.value own).trans ((passes_skipBlank after).trans ?_)
  simp only at read
  split at read
  · rename_i comma
    rw [comma]
    exact .cons (by decide) (passes.inline read)
  · rename_i closed
    cases read
    rw [closed]
    exact .cons (by decide) id
  · cases read

theorem fuelPasses (fuel : Nat) : FuelPasses fuel := by
  induction fuel with
  | zero =>
      constructor
      · intro text rest value read
        cases read
      · intro text rest values read
        cases read
      · intro table text rest entries read
        cases read
  | succ fuel ih => exact ⟨readValue_step ih, readElements_step_passes ih, readInline_step_passes ih⟩

theorem readEntry_passes {text rest : List Char} {entry : List String × Value}
    (read : readEntry text = some (entry, rest)) : Passes text rest := by
  obtain ⟨⟨path, behind⟩, key, read⟩ := Option.bind_eq_some_iff.mp read
  obtain ⟨⟨value, after⟩, own, same⟩ := Option.map_eq_some_iff.mp read
  cases same
  exact (readKey_passes key).trans ((passes_skipBlank behind).trans ((fuelPasses _).value own))

theorem readItems_plain {fuel : Nat} {path : List String} {document result : Table}
    {text : List Char} (read : readItems fuel path document text = some result) :
    '\x7F' ∉ text := by
  induction fuel generalizing path document text with
  | zero => cases read
  | succ fuel ih =>
      intro inside
      have start := passes_skipLines text inside
      rw [readItems] at read
      split at read
      · rename_i empty
        rw [empty] at start
        cases start
      · rename_i behind item
        rw [item] at start
        obtain ⟨⟨name, after⟩, header, read⟩ := Option.bind_eq_some_iff.mp read
        obtain ⟨added, _, read⟩ := Option.bind_eq_some_iff.mp read
        rw [Option.ite_none_right_eq_some] at read
        exact ih read.2 (Passes.cons (by decide) (readHeader_passes header) start)
      · obtain ⟨⟨entry, after⟩, own, read⟩ := Option.bind_eq_some_iff.mp read
        obtain ⟨added, _, read⟩ := Option.bind_eq_some_iff.mp read
        rw [Option.ite_none_right_eq_some] at read
        exact ih read.2 (readEntry_passes own start)

theorem readDocument_plain {text : List Char} {result : Table}
    (read : readDocument text = some result) : '\x7F' ∉ text :=
  readItems_plain read

end Refused

section Inline

/-- The keys of inline tables are bare, wherever the tables are. -/
inductive Keyed : Value → Prop where
  | string (text : String) : Keyed (.string text)
  | bool (value : Bool) : Keyed (.bool value)
  | array (values : List Value) : Keyed (.array values)
  | table {entries : Table} (each : ∀ entry ∈ entries, Keyed entry.2) : Keyed (.table entries)
  | inline {entries : Table} (bare : ∀ entry ∈ entries, Bare entry.1) : Keyed (.inline entries)

variable {table result : Table} {value : Value}

theorem of_mem_replace {name : String} {entry : String × Value}
    (inside : entry ∈ replace name value table) : entry = (name, value) ∨ entry ∈ table := by
  obtain ⟨other, there, same⟩ := List.mem_map.mp inside
  split at same
  · exact .inl same.symm
  · exact .inr (same ▸ there)

theorem insert_bare {path : List String} (inserted : insert path value table = some result)
    (bare : ∀ name ∈ path, Bare name) (each : ∀ entry ∈ table, Bare entry.1) :
    ∀ entry ∈ result, Bare entry.1 := by
  have added : ∀ (name : String) (own : Value), name ∈ path →
      ∀ entry ∈ table ++ [(name, own)], Bare entry.1 := by
    intro name own listed entry inside
    rcases List.mem_append.mp inside with early | new
    · exact each entry early
    · rw [List.mem_singleton.mp new]
      exact bare name listed
  unfold insert at inserted
  split at inserted
  · cases inserted
  · split at inserted
    · cases inserted
      exact added _ _ List.mem_cons_self
    · cases inserted
  · split at inserted
    · obtain ⟨sub, _, rfl⟩ := Option.map_eq_some_iff.mp inserted
      exact added _ _ List.mem_cons_self
    · obtain ⟨sub, _, rfl⟩ := Option.map_eq_some_iff.mp inserted
      intro entry inside
      rcases of_mem_replace inside with rfl | there
      · exact bare _ List.mem_cons_self
      · exact each entry there
    · cases inserted

theorem keyed_concat (each : ∀ entry ∈ table, Keyed entry.2) (name : String) (own : Keyed value) :
    ∀ entry ∈ table ++ [(name, value)], Keyed entry.2 := by
  intro entry inside
  rcases List.mem_append.mp inside with early | last
  · exact each entry early
  · rw [List.mem_singleton.mp last]
    exact own

theorem insert_keyed {path : List String} (inserted : insert path value table = some result)
    (own : Keyed value) (each : ∀ entry ∈ table, Keyed entry.2) :
    ∀ entry ∈ result, Keyed entry.2 := by
  fun_induction insert path value table generalizing result with
  | case1 => cases inserted
  | case2 name value table absent =>
      cases inserted
      exact keyed_concat each name own
  | case3 => cases inserted
  | case4 name next path value table absent ih =>
      obtain ⟨sub, below, rfl⟩ := Option.map_eq_some_iff.mp inserted
      exact keyed_concat each name (.table (ih below own (by simp)))
  | case5 name next path value table sub found ih =>
      obtain ⟨more, below, rfl⟩ := Option.map_eq_some_iff.mp inserted
      have inner : ∀ entry ∈ sub, Keyed entry.2 := by
        cases each _ (mem_of_lookup found) with
        | table each => exact each
      intro entry inside
      rcases of_mem_replace inside with rfl | there
      · exact .table (ih below own inner)
      · exact each entry there
  | case6 => cases inserted

theorem readKey_bare {text rest : List Char} {path : List String}
    (read : readKey text = some (path, rest)) : ∀ name ∈ path, Bare name := by
  unfold readKey at read
  split at read
  · cases read
  · obtain ⟨own, key, same⟩ := Option.map_eq_some_iff.mp read
    cases same
    exact keyPath_bare key

theorem readInline_bare {fuel : Nat} {text rest : List Char} {entries : Table}
    (read : readInline fuel table text = some (entries, rest))
    (each : ∀ entry ∈ table, Bare entry.1) : ∀ entry ∈ entries, Bare entry.1 := by
  induction fuel generalizing table text with
  | zero => cases read
  | succ fuel ih =>
      rw [readInline] at read
      obtain ⟨⟨path, behind⟩, key, read⟩ := Option.bind_eq_some_iff.mp read
      obtain ⟨⟨value, after⟩, _, read⟩ := Option.bind_eq_some_iff.mp read
      obtain ⟨added, inserted, read⟩ := Option.bind_eq_some_iff.mp read
      have grown := insert_bare inserted (readKey_bare key) each
      simp only at read
      split at read
      · exact ih read grown
      · cases read
        exact grown
      · cases read

theorem readValue_keyed {fuel : Nat} {text rest : List Char}
    (read : readValue fuel text = some (value, rest)) : Keyed value := by
  cases fuel with
  | zero => cases read
  | succ fuel =>
      rw [readValue.eq_def] at read
      simp only at read
      split at read
      · obtain ⟨_, _, same⟩ := Option.map_eq_some_iff.mp read
        cases same
        exact .string _
      · obtain ⟨_, _, same⟩ := Option.map_eq_some_iff.mp read
        cases same
        exact .array _
      · split at read
        · cases read
          exact .inline (by simp)
        · obtain ⟨_, done, same⟩ := Option.map_eq_some_iff.mp read
          cases same
          exact .inline (readInline_bare done (by simp))
      · cases read
        exact .bool true
      · cases read
        exact .bool false
      · cases read

theorem readItems_keyed {fuel : Nat} {path : List String} {text : List Char}
    (read : readItems fuel path table text = some result)
    (each : ∀ entry ∈ table, Keyed entry.2) : ∀ entry ∈ result, Keyed entry.2 := by
  induction fuel generalizing path table text with
  | zero => cases read
  | succ fuel ih =>
      rw [readItems] at read
      split at read
      · cases read
        exact each
      · obtain ⟨_, _, read⟩ := Option.bind_eq_some_iff.mp read
        obtain ⟨added, inserted, read⟩ := Option.bind_eq_some_iff.mp read
        rw [Option.ite_none_right_eq_some] at read
        exact ih read.2 (insert_keyed inserted (.table (by simp)) each)
      · obtain ⟨_, own, read⟩ := Option.bind_eq_some_iff.mp read
        obtain ⟨added, inserted, read⟩ := Option.bind_eq_some_iff.mp read
        rw [Option.ite_none_right_eq_some] at read
        obtain ⟨_, _, own⟩ := Option.bind_eq_some_iff.mp own
        obtain ⟨_, value, same⟩ := Option.map_eq_some_iff.mp own
        cases same
        exact ih read.2 (insert_keyed inserted (readValue_keyed value) each)

/-- An inline table anywhere in a table of the document has bare keys. -/
theorem readDocument_keyed {text : List Char} (read : readDocument text = some result) :
    ∀ entry ∈ result, Keyed entry.2 :=
  readItems_keyed read (by simp)

end Inline

end NixRedox.Toml
