import Pgx.Go.Runes
import Pgx.Wire.Messages

/-!
# The `require_auth` policy

The connection parameter is a comma-separated list of method names, each negated
by a leading `!` or none of them. It is parsed into a bitmask of the methods that
the server may ask for, and a flag that tells whether it must ask for one.
-/
namespace Pgx.Connect

open Pgx.Go Pgx.Wire

inductive AuthMethod where
  | password
  | md5
  | gss
  | sspi
  | scramSHA256
  | oauth
  | none
  deriving DecidableEq, Repr

namespace AuthMethod

/-- The position of the method in the enumeration. -/
def index : AuthMethod → UInt8
  | password => 0
  | md5 => 1
  | gss => 2
  | sspi => 3
  | scramSHA256 => 4
  | oauth => 5
  | none => 6

def name : AuthMethod → String
  | password => "password"
  | md5 => "md5"
  | gss => "gss"
  | sspi => "sspi"
  | scramSHA256 => "scram-sha-256"
  | oauth => "oauth"
  | none => "none"

def bit (m : AuthMethod) : UInt8 := 1 <<< m.index

def all : UInt8 := (1 : UInt8) <<< 7 - 1

def ofName (s : Text) : Option AuthMethod :=
  [password, md5, gss, sspi, scramSHA256, oauth, none].find? fun m => s = m.name.toList

end AuthMethod

structure RequireAuth where
  raw : Text
  authRequired : Bool := false
  allowed : UInt8 := 0
  deriving DecidableEq, Repr

namespace RequireAuth

def allows (ra : RequireAuth) (m : AuthMethod) : Bool := ra.allowed &&& m.bit ≠ 0

/-- The error when the policy does not permit the method, else nil. -/
def check (ra : RequireAuth) (m : AuthMethod) : Option Error :=
  if ra.allows m then none
  else
    let reason :=
      if m = .none then "server did not complete authentication"
      else "server requested " ++ m.name ++ " authentication"
    some (.errorf "authentication method requirement %q failed: %s" [String.ofList ra.raw, reason])

theorem check_eq_none {ra : RequireAuth} {m : AuthMethod} :
    ra.check m = none ↔ ra.allows m = true := by
  unfold check
  split <;> simp_all

end RequireAuth

def trimSpace (s : Text) : Text := ((s.dropWhile isSpaceRune).reverse.dropWhile isSpaceRune).reverse

structure ParseState where
  ra : RequireAuth
  first : Bool := true
  negated : Bool := false

/-- The method of a part and whether it is negated. -/
def splitNegation (part : Text) : Bool × Text :=
  match trimSpace part with
  | '!' :: method => (true, method)
  | method => (false, method)

/-- The first part decides whether the list is negated. -/
def ParseState.start (st : ParseState) (neg : Bool) : ParseState :=
  if st.first then
    { ra := if neg then { st.ra with allowed := AuthMethod.all } else { st.ra with authRequired := true }
      first := false
      negated := neg }
  else st

def ParseState.add (st : ParseState) (part : Text) (m : AuthMethod) : Except Error ParseState :=
  let twice := Error.errorf "require_auth method %q is specified more than once" [String.ofList part]
  if st.negated then
    if st.ra.allowed &&& m.bit = 0 then .error twice
    else .ok { st with ra :=
      { st.ra with
        allowed := st.ra.allowed &&& ~~~m.bit
        authRequired := if m = .none then true else st.ra.authRequired } }
  else
    if st.ra.allowed &&& m.bit ≠ 0 then .error twice
    else .ok { st with ra :=
      { st.ra with
        allowed := st.ra.allowed ||| m.bit
        authRequired := if m = .none then false else st.ra.authRequired } }

def parsePart (st : ParseState) (part : Text) : Except Error ParseState :=
  let neg := (splitNegation part).1
  let method := (splitNegation part).2
  let mixed := !st.first && neg != st.negated
  if mixed && neg then
    .error (.errorf "negative require_auth method %q cannot be mixed with non-negative methods"
      [String.ofList method])
  else if mixed then
    .error (.errorf "require_auth method %q cannot be mixed with negative methods"
      [String.ofList method])
  else match AuthMethod.ofName method with
    | none => .error (.errorf "invalid require_auth method: %q" [String.ofList method])
    | some m => (st.start neg).add part m

def parseRequireAuth (s : Text) : Except Error RequireAuth :=
  if s = [] then .ok { raw := s, allowed := AuthMethod.all }
  else ((s.splitOn ',').foldlM parsePart { ra := { raw := s } }).map ParseState.ra

end Pgx.Connect
