/-!
Media types, as the header of a body names them: a type, a subtype that may end in a suffix, and
parameters. Letters of either case mean the same.
-/

set_option autoImplicit false

namespace Telemetry.Http

/-- A media type. -/
structure MediaType where
  type : String
  subtype : String
  suffix : Option String := none
  deriving DecidableEq, Repr

namespace MediaType

/-! ## Characters -/

/-- Whether a character may stand in a token. -/
def isToken (c : Char) : Bool := c.isAlphanum || "!#$%&*+-.^_\x60|~\x27".contains c

/-- Whether a character may stand between quotation marks. -/
def isQuotable (c : Char) : Bool := 31 < c.toNat && c.toNat != 127

/-- A text with the capital letters of ASCII made small. -/
def lowered (cs : List Char) : String := String.ofList (cs.map Char.toLower)

/-! ## Parameters -/

/-- What stands behind a quoted value and the semicolon that may follow it. The first character of
the value may be any. -/
def behindQuoted? (cs : List Char) : Option (List Char) := do
  let first ← cs.head?
  if !isQuotable first then none
  else
    let inside := cs.tail.dropWhile fun c => isQuotable c && c != '"'
    match inside with
    | '"' :: rest =>
      match rest.dropWhile (· = ' ') with
      | [] => some []
      | ';' :: rest => some rest
      | _ => none
    | _ => none

/-- What stands behind a value and the semicolon that may follow it. -/
def behindValue? : List Char → Option (List Char)
  | '"' :: rest => behindQuoted? rest
  | cs =>
    match cs.dropWhile isToken with
    | [] => some []
    | ';' :: rest => if (cs.takeWhile isToken).isEmpty then none else some rest
    | _ => none

/-- Whether a text is a sequence of parameters. Each takes a character or more, so the length of the
text is fuel enough. -/
def areParameters : Nat → List Char → Bool
  | 0, _ => false
  | fuel + 1, cs =>
    match cs.dropWhile (· = ' ') with
    | [] => true
    | cs =>
      if (cs.takeWhile isToken).isEmpty then false
      else
        match cs.dropWhile isToken with
        | '=' :: rest =>
          match behindValue? rest with
          | some rest => areParameters fuel rest
          | none => false
        | _ => false

/-! ## Reading -/

/-- The subtype and the suffix behind its last plus sign, which is not its first character. -/
def splitSuffix (cs : List Char) : List Char × Option (List Char) :=
  let suffix := (cs.reverse.takeWhile (· ≠ '+')).reverse
  let front := cs.take (cs.length - suffix.length - 1)
  if suffix.length = cs.length ∨ front.isEmpty then (cs, none) else (front, some suffix)

/-- The media type that a text names. -/
def read? (cs : List Char) : Option MediaType :=
  let type := cs.takeWhile isToken
  match type.isEmpty, cs.dropWhile isToken with
  | false, '/' :: rest =>
    let name := rest.takeWhile isToken
    let (subtype, suffix) := splitSuffix name
    let found : MediaType := ⟨lowered type, lowered subtype, suffix.map lowered⟩
    match rest.dropWhile isToken with
    | [] => some found
    | ';' :: rest =>
      if !name.isEmpty && areParameters (rest.length + 1) rest then some found else none
    | _ => none
  | _, _ => none

/-- Whether bodies of the type are JSON. -/
def isJson (m : MediaType) : Bool :=
  m.type == "application" && (m.subtype == "json" || m.suffix == some "json")

end MediaType

end Telemetry.Http
