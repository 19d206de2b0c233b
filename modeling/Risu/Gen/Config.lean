import Mathlib.Data.List.DropRight
import Risu.Lib.BitField
import Risu.Lib.Scan
import Risu.Gen.Tokens

/-!
# Configuration files (`parse_config_file`)

Each token list is a list of groups (`@`), a directive (`.mode`) or an instruction pattern.  A pattern
is a name, an encoding and bit fields from the most significant bit on, followed by blocks.

* `Spec`, `parseSpec` — a bit field token: fixed bits or a named field;
* `BitState`, `parseBits` — the loop over the bit fields and blocks;
* `Insnrec`, `parsePattern` — an instruction record and the pattern it comes from;
* `parseEntry`, `parseConfigFile` — the whole file.
-/

namespace Risu.Gen

open Lib

/-! ### Instruction records -/

/-- The keys of `%valid_blockname`. -/
inductive Block where
  | constraints
  | memory
  | post
  | pre
  deriving DecidableEq, Repr

def Block.name : Block → List Char
  | constraints => "constraints".toList
  | memory => "memory".toList
  | post => "post".toList
  | pre => "pre".toList

/-- `$valid_blockname{$blockname}` -/
def blockOfName (name : List Char) : Option Block :=
  [Block.constraints, .memory, .post, .pre].find? fun b => b.name == name

/-- `[ $var, $pos, $mask ]` -/
structure Field where
  var : List Char
  pos : ℤ
  mask : BitVec 64
  deriving DecidableEq

structure Insnrec where
  name : List Char
  width : ℕ
  fixedbits : BitVec 64
  fixedbitmask : BitVec 64
  fields : List Field
  blocks : Block → Option (List Char)
  /-- Undefined unless an `@` line named some. -/
  groups : Option (List (List Char))

/-! ### Errors -/

/-- What ends the program while it reads a configuration file. -/
inductive ParseError where
  | mismatchedBraces
  | modeTooLate
  | modeArguments
  | unknownDirective (dirname : List Char)
  | noInsnOrEncoding
  | invalidInsn (insn : List Char)
  | invalidEncoding (enc : List Char)
  | redefinition (insnname : List Char)
  | expectedBlock (blockname : List Char)
  | unknownBlock (blockname : List Char)
  | unrecognisedBits (insn enc bit : List Char)
  | blocksInMiddle
  | tooManyBits (insn enc : List Char)
  | notEnoughBits (insn enc : List Char)
  | incompleteByte (insn enc : List Char)
  | notLinedUp

/-- The message, after the name of the file and the number of the line. -/
def ParseError.message : ParseError → String
  | mismatchedBraces => "mismatched braces"
  | modeTooLate => ".mode directive must precede all instruction patterns"
  | modeArguments => "wrong number of arguments to .mode"
  | unknownDirective dirname => "unknown directive " ++ String.ofList dirname
  | noInsnOrEncoding => "no insn or encoding?"
  | invalidInsn insn => "invalid insn name " ++ String.ofList insn ++
      " (possibly missing line continuation character?)"
  | invalidEncoding enc => "invalid encoding name " ++ String.ofList enc
  | redefinition insnname => "redefinition of " ++ String.ofList insnname
  | expectedBlock blockname => "expected block following '!" ++ String.ofList blockname ++ "'"
  | unknownBlock blockname => "unknown block name '" ++ String.ofList blockname ++ "'"
  | unrecognisedBits insn enc bit => "(" ++ String.ofList insn ++ " " ++ String.ofList enc ++
      ") unrecognised bitfield specifier " ++ String.ofList bit
  | blocksInMiddle => "blocks may not occur in the middle of a pattern"
  | tooManyBits insn enc => "(" ++ String.ofList insn ++ " " ++ String.ofList enc ++
      ") too many bits specified"
  | notEnoughBits insn enc => "(" ++ String.ofList insn ++ " " ++ String.ofList enc ++
      ") not enough bits specified"
  | incompleteByte insn enc => "(" ++ String.ofList insn ++ " " ++ String.ofList enc ++
      ") not enough bits to make the last byte"
  | notLinedUp => "internal error: fixed bits not lined up with mask"

/-! ### Bit fields -/

/-- A bit field: fixed bits with the number written there, or a variable field. -/
inductive Spec where
  | fixed (bitlen val : ℕ)
  | var (bitlen : ℕ) (name : List Char)
  deriving DecidableEq

def Spec.len : Spec → ℕ
  | fixed bitlen _ => bitlen
  | var bitlen _ => bitlen

/-- `/^[01]*$/` -/
def isFixedBits (bit : List Char) : Bool := bit.all fun c => c == '0' || c == '1'

/-- `/^[a-zA-Z][a-zA-Z0-9]*$/` -/
def isVar (cs : List Char) : Bool := cs.head?.any isAlpha && cs.all isAlnum

/-- `/^[0-9]\w*$/` -/
def isValue (cs : List Char) : Bool := cs.head?.any isDigit && cs.all isWord

/-- `/^[A-Za-z0-9][A-Za-z0-9_]*$/` -/
def isName (cs : List Char) : Bool := cs.head?.any isAlnum && cs.all isWord

/-- The number of a string of binary digits, which is read in two halves if it is long. -/
def bitval (bit : List Char) : ℕ :=
  if bit.length > 32 then
    (binary (bit.take (bit.length - 32)) <<< 32) ||| binary (bit.drop (bit.length - 32))
  else binary bit

/-- The form of a bit field token, the alternatives in the order of the source. -/
def parseSpec (bit : List Char) : Option Spec :=
  if isFixedBits bit then some (.fixed bit.length (bitval bit))
  else
    match bit.dropWhile (· != ':') with
    | _ :: len =>
      let text := bit.takeWhile (· != ':')
      if len.isEmpty || !len.all isDigit then none
      else if isValue text then some (.fixed (decimal len) (numify text))
      else if isVar text then some (.var (decimal len) text)
      else none
    | [] => if isVar bit then some (.var 1 bit) else none

/-- The mask of a field, which is made in two halves if it is long. -/
def bitmask (bitlen : ℕ) : BitVec 64 :=
  if bitlen > 32 then (ones 64 (bitlen - 32) <<< 32) ||| ones 64 32 else ones 64 bitlen

/-- The variables of the loop. -/
structure BitState where
  insnwidth : ℕ
  fixedbits : BitVec 64
  fixedbitmask : BitVec 64
  fields : List Field
  blocks : Block → Option (List Char)
  seenblock : Bool

def BitState.init : BitState where
  insnwidth := 0
  fixedbits := 0
  fixedbitmask := 0
  fields := []
  blocks := fun _ => none
  seenblock := false

namespace BitState

def setBlock (s : BitState) (b : Block) (text : List Char) : BitState :=
  { s with blocks := fun b' => if b' = b then some text else s.blocks b', seenblock := true }

/-- What a bit field does to the variables. -/
def push (s : BitState) (spec : Spec) : BitState :=
  let insnwidth := s.insnwidth + spec.len
  let fixedbits := s.fixedbits <<< spec.len
  let fixedbitmask := s.fixedbitmask <<< spec.len
  match spec with
  | .fixed bitlen val =>
    { s with
      insnwidth
      fixedbits := fixedbits ||| uv val
      fixedbitmask := fixedbitmask ||| bitmask bitlen }
  | .var bitlen name =>
    { s with
      insnwidth, fixedbits, fixedbitmask
      fields := s.fields ++ [⟨name, 32 - (insnwidth : ℤ), bitmask bitlen⟩] }

end BitState

/-- The loop over the bit fields and blocks. -/
def parseBits (insn enc : List Char) : BitState → List (List Char) → Except ParseError BitState
  | s, [] => .ok s
  | s, bit :: bits =>
    if bit.head? = some '!' then
      match bits with
      | [] => .error (.expectedBlock bit.tail)
      | block :: bits =>
        if block.head? ≠ some '{' then .error (.expectedBlock bit.tail)
        else
          match blockOfName bit.tail with
          | none => .error (.unknownBlock bit.tail)
          | some b => parseBits insn enc (s.setBlock b block) bits
    else if bit.head? = some '{' then parseBits insn enc (s.setBlock .constraints bit) bits
    else
      match parseSpec bit with
      | none => .error (.unrecognisedBits insn enc bit)
      | some spec =>
        if s.seenblock then .error .blocksInMiddle
        else if (s.push spec).insnwidth > 64 then .error (.tooManyBits insn enc)
        else parseBits insn enc (s.push spec) bits

/-! ### Patterns -/

/-- The widths accepted, and the fixed bits moved to the high halfword for width 16. -/
def alignWidth (insn enc : List Char) (s : BitState) : Except ParseError BitState :=
  if s.insnwidth = 16 then
    .ok { s with fixedbits := s.fixedbits <<< 16, fixedbitmask := s.fixedbitmask <<< 16 }
  else if s.insnwidth < 32 then .error (.notEnoughBits insn enc)
  else if s.insnwidth % 8 ≠ 0 then .error (.incompleteByte insn enc)
  else .ok s

/-- The last check: every fixed bit lies under the mask. -/
def linedUp (s : BitState) : Bool :=
  s.fixedbits &&& s.fixedbitmask == s.fixedbits && s.fixedbits &&& ~~~s.fixedbitmask == 0

/-- `"${insn} ${enc}"` -/
def insnname (insn enc : List Char) : List Char := insn ++ ' ' :: enc

/-- The record of a pattern. -/
def toRecord (insn enc : List Char) (groups : List (List Char)) (s : BitState) : Insnrec where
  name := insnname insn enc
  width := s.insnwidth
  fixedbits := s.fixedbits
  fixedbitmask := s.fixedbitmask
  fields := s.fields
  blocks := s.blocks
  groups := if groups = [] then none else some groups

/-- The bit fields and blocks of a pattern with everything that is checked about them. -/
def parseLayout (insn enc : List Char) (groups : List (List Char)) (bits : List (List Char)) :
    Except ParseError Insnrec := do
  let s ← parseBits insn enc .init bits
  let s ← alignWidth insn enc s
  if linedUp s then return toRecord insn enc groups s else .error .notLinedUp

def parsePattern (details : List Insnrec) (groups : List (List Char)) :
    List (List Char) → Except ParseError Insnrec
  | insn :: enc :: bits =>
    if !isName insn then .error (.invalidInsn insn)
    else if !isName enc then .error (.invalidEncoding enc)
    else if details.any fun r => r.name == insnname insn enc then
      .error (.redefinition (insnname insn enc))
    else parseLayout insn enc groups bits
  | _ => .error .noInsnOrEncoding

/-! ### Files -/

/-- What has been read so far. -/
structure Config where
  arch : List Char
  groups : List (List Char)
  seenPattern : Bool
  details : List Insnrec

def Config.init : Config where
  arch := []
  groups := []
  seenPattern := false
  details := []

def trim (cs : List Char) : List Char := (cs.dropWhile isSpace).rdropWhile isSpace

/-- `split(/\s*,\s*/, $line)` of the tokens after the `@`; empty fields at the end are dropped. -/
def parseGroups (tokens : List (List Char)) : List (List Char) :=
  (((([' '].intercalate tokens).tail.splitOn ',').map trim)).rdropWhile List.isEmpty

/-- `parse_risu_directive` -/
def parseRisuDirective (c : Config) (dirname : List Char) (rest : List (List Char)) :
    Except ParseError Config :=
  if dirname = ".mode".toList then
    if c.seenPattern then .error .modeTooLate
    else
      match rest with
      | [mode] => .ok { c with arch := mode }
      | _ => .error .modeArguments
  else .error (.unknownDirective dirname)

/-- One turn of the loop of `parse_config_file`. -/
def parseEntry (c : Config) (tokens : List (List Char)) : Except ParseError Config :=
  if tokens.any fun t => t == ['{'] || t == ['}'] then .error .mismatchedBraces
  else if (tokens.headD []).head? = some '@' then .ok { c with groups := parseGroups tokens }
  else if (tokens.headD []).head? = some '.' then
    parseRisuDirective c (tokens.headD []) tokens.tail
  else do
    let rec ← parsePattern c.details c.groups tokens
    return { c with seenPattern := true, details := c.details ++ [rec] }

def parseConfigFile (lines : List (List Char)) : Except ParseError Config :=
  (tokenLists lines).foldlM parseEntry .init

/-! ### What an accepted entry is -/

theorem parsePattern_ok {details : List Insnrec} {groups tokens : List (List Char)} {r : Insnrec}
    (h : parsePattern details groups tokens = .ok r) :
    ∃ insn enc bits, tokens = insn :: enc :: bits ∧ isName insn = true ∧ isName enc = true ∧
      parseLayout insn enc groups bits = .ok r := by
  unfold parsePattern at h
  split at h
  · rename_i insn enc bits
    split_ifs at h with hinsn henc
    exact ⟨insn, enc, bits, rfl, by simpa using hinsn, by simpa using henc, h⟩
  · cases h

theorem parseRisuDirective_ok {c c' : Config} {dirname : List Char} {rest : List (List Char)}
    (h : parseRisuDirective c dirname rest = .ok c') : c'.details = c.details := by
  unfold parseRisuDirective at h
  split_ifs at h
  split at h
  · cases h
    rfl
  · cases h

/-- An entry that is accepted holds no single brace, and either adds no record or is a pattern. -/
theorem parseEntry_ok {c c' : Config} {tokens : List (List Char)}
    (h : parseEntry c tokens = .ok c') :
    (∀ t ∈ tokens, t ≠ ['{'] ∧ t ≠ ['}']) ∧
      (c'.details = c.details ∨ ∃ insn enc bits r, tokens = insn :: enc :: bits ∧
        isName insn = true ∧ isName enc = true ∧ parseLayout insn enc c.groups bits = .ok r ∧
        c'.details = c.details ++ [r]) := by
  unfold parseEntry at h
  split_ifs at h with hbraces hgroups hdirective
  all_goals
    have hbraces : ∀ t ∈ tokens, t ≠ ['{'] ∧ t ≠ ['}'] := by simpa using hbraces
  · cases h
    exact ⟨hbraces, .inl rfl⟩
  · exact ⟨hbraces, .inl (parseRisuDirective_ok h)⟩
  · obtain ⟨r, hr, h⟩ := bind_eq_ok.mp h
    cases h
    obtain ⟨insn, enc, bits, htokens, hinsn, henc, hlayout⟩ := parsePattern_ok hr
    exact ⟨hbraces, .inr ⟨insn, enc, bits, r, htokens, hinsn, henc, hlayout, rfl⟩⟩

/-- The record an entry adds is that of its bit fields and blocks. -/
theorem parseEntry_record {c c' : Config} {insn enc : List Char} {bits : List (List Char)}
    {r : Insnrec} (h : parseEntry c (insn :: enc :: bits) = .ok c')
    (hr : c'.details = c.details ++ [r]) : parseLayout insn enc c.groups bits = .ok r := by
  obtain ⟨-, hsame | ⟨insn', enc', bits', r', htokens, -, -, hlayout, hr'⟩⟩ := parseEntry_ok h
  · rw [hsame] at hr
    exact absurd hr.symm (by simp)
  · cases htokens
    rw [hr] at hr'
    obtain rfl : r = r' := by simpa using hr'
    exact hlayout

/-- An entry that adds one record to an empty list. -/
theorem exists_record {tokens : List (List Char)}
    (h : (parseEntry .init tokens).toOption.map (fun c => c.details.length) = some 1) :
    ∃ c r, parseEntry .init tokens = .ok c ∧ c.details = [r] := by
  cases hc : parseEntry .init tokens with
  | error e => rw [hc] at h; cases h
  | ok c =>
    rw [hc] at h
    obtain ⟨r, hr⟩ := List.length_eq_one_iff.mp (Option.some.inj h)
    exact ⟨c, r, rfl, hr⟩

end Risu.Gen
