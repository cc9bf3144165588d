import SheetLint.Text.Ascii
import SheetLint.Text.Blank
import SheetLint.Text.Cut

/-! # URLs

`ExternalUrl.parse?` recognises the URLs that point at another host:

```text
external := scheme "://" [userinfo "@"] host [":" port] [tail]
scheme   := "ftp" | "http" | "https"            in any case
userinfo := word+ [":" word*]                    word: ASCII letter, digit or "_"
host     := "[" address "]" | 1*(no white space and none of / ? # @ : [ ])
port     := 1*digit
tail     := ("/" | "?" | "#") *(no white space)
```

`uriScheme?` is the scheme of any other URI, such as `data:`.
-/
namespace SheetLint
open Text

/-- The parts of a URL that points at another host. -/
structure ExternalUrl where
  scheme : String
  /-- The user, and the password behind a colon. -/
  userinfo : Option String
  /-- A name, an address, or an address in brackets. -/
  host : String
  port : Option String
  /-- Path, query and fragment. -/
  tail : String
  deriving DecidableEq, Repr

/-- The schemes that point at a host. -/
def networkSchemes : List String := ["ftp", "http", "https"]

namespace ExternalUrl

/-- The characters of user names and passwords. -/
def isWordChar (c : Char) : Bool := c.isAlphanum || c == '_'

/-- Whether a text can stand before the `@`. -/
def isUserinfo (cs : List Char) : Bool :=
  match cutAt? [':'] cs with
  | some (user, password) => !user.isEmpty && user.all isWordChar && password.all isWordChar
  | none => !cs.isEmpty && cs.all isWordChar

/-- Splits off the user, if there is one. -/
def splitUserinfo (cs : List Char) : Option (List Char) × List Char :=
  match cutAt? ['@'] cs with
  | some (candidate, rest) => if isUserinfo candidate then (some candidate, rest) else (none, cs)
  | none => (none, cs)

/-- The characters that end the name of a host. -/
def endsHost (c : Char) : Bool :=
  isBlank c || ['/', '?', '#', '@', ':', '[', ']'].contains c

/-- Splits off the host. -/
def splitHost (cs : List Char) : Option (List Char × List Char) :=
  match cs with
  | '[' :: rest =>
    match cutAt? [']'] rest with
    | some (address, rest) =>
      if address.isEmpty then none else some ('[' :: address ++ [']'], rest)
    | none => none
  | _ =>
    let host := cs.takeWhile fun c => !endsHost c
    if host.isEmpty then none else some (host, cs.dropWhile fun c => !endsHost c)

/-- Splits off the port, if there is one.  A colon without digits is refused. -/
def splitPort (cs : List Char) : Option (Option (List Char) × List Char) :=
  match cs with
  | ':' :: rest =>
    let digits := rest.takeWhile Char.isDigit
    if digits.isEmpty then none else some (some digits, rest.dropWhile Char.isDigit)
  | _ => some (none, cs)

/-- Whether a text can be the path, query and fragment. -/
def isTail (cs : List Char) : Bool :=
  (match cs with
    | [] => true
    | c :: _ => ['/', '?', '#'].contains c) &&
  !cs.any isBlank

/-- The parts of a URL, if it points at another host. -/
def parse? (path : String) : Option ExternalUrl := do
  let (scheme, rest) ← cutAt? "://".toList path.toList
  let scheme := String.ofList scheme
  if networkSchemes.any (sameWord scheme) then
    let (userinfo, rest) := splitUserinfo rest
    let (host, rest) ← splitHost rest
    let (port, tail) ← splitPort rest
    if isTail tail then
      return {
        scheme
        userinfo := userinfo.map String.ofList
        host := String.ofList host
        port := port.map String.ofList
        tail := String.ofList tail }
    else
      none
  else
    none

end ExternalUrl

/-- Whether a path points at another host. -/
def isExternal (path : String) : Bool := (ExternalUrl.parse? path).isSome

/-- The scheme of a URI.  A single letter is no scheme but the name of a drive. -/
def uriScheme? (path : String) : Option String :=
  match cutAt? [':'] path.toList with
  | some (c :: d :: cs, _) =>
    if c.isAlpha && (d :: cs).all (fun c => c.isAlphanum || ['+', '-', '.'].contains c) then
      some (String.ofList (c :: d :: cs))
    else
      none
  | _ => none

end SheetLint
