import Solpg.Std.IpAddr
import Solpg.Std.RustStr

/-!
# The client address behind the load balancer

`client_ip` of `routes/learning/session.rs`, on the headers that reach the
server once the load balancer has appended its two addresses to whatever
`x-forwarded-for` value the caller sent.
-/

namespace Solpg.Server.Routes.Learning

open Solpg.Std
open Solpg.Std.RustStr (isWhitespace trim trim_eq_self trim_space_cons)

/-- Header fields in order, under lower-case names. -/
abbrev HeaderMap := List (String × List UInt8)

namespace HeaderMap

/-- The first value under a name. -/
def get (headers : HeaderMap) (name : String) : Option (List UInt8) :=
  (headers.find? fun field => field.1 == name).map Prod.snd

end HeaderMap

def isVisibleAscii (byte : UInt8) : Bool := (32 ≤ byte && byte < 127) || byte == 9

/-- The text of ASCII bytes. -/
def asciiText (bytes : List UInt8) : List Char := bytes.map fun byte => Char.ofNat byte.toNat

/-- `HeaderValue::to_str`. -/
def toStr (value : List UInt8) : Option (List Char) :=
  if value.all isVisibleAscii then some (asciiText value) else none

/-- The address of the platform header, or else the peer. -/
def platformIp (headers : HeaderMap) (peerIp : IpAddr) : IpAddr :=
  (((headers.get "x-appengine-user-ip").bind toStr).bind IpAddr.parse).getD peerIp

/-- The second address from the right of a forwarded value. -/
def forwardedIp (value : List Char) : Option IpAddr :=
  ((value.splitOn ',').reverse.filterMap fun value => IpAddr.parse (trim value))[1]?

def clientIp (headers : HeaderMap) (peerIp : IpAddr) : IpAddr :=
  match ((headers.get "x-forwarded-for").bind toStr).bind forwardedIp with
  | some address => address
  | none => platformIp headers peerIp

/-- What the load balancer writes for an address. -/
structure AddressText where
  bytes : List UInt8
  address : IpAddr
  visible : bytes.all isVisibleAscii = true
  noComma : ',' ∉ asciiText bytes
  parses : IpAddr.parse (trim (asciiText bytes)) = some address

/-- The byte of a character that is written and read back as it is. -/
def isPlain (char : Char) : Bool :=
  Char.ofNat (UInt8.ofNat char.toNat).toNat == char && isVisibleAscii (UInt8.ofNat char.toNat) &&
    char != ',' && !isWhitespace char

theorem isPlain_of_mem_ipv4Text {octets : Vector UInt8 4} {char : Char}
    (member : char ∈ IpAddr.ipv4Text octets) :
    Char.ofNat (UInt8.ofNat char.toNat).toNat = char ∧
      isVisibleAscii (UInt8.ofNat char.toNat) = true ∧ char ≠ ',' ∧ isWhitespace char = false := by
  have every : IpAddr.quadChars.all isPlain = true := by decide
  have plain := List.all_eq_true.mp every char (IpAddr.mem_quadChars_of_mem_ipv4Text member)
  simpa [isPlain, and_assoc] using plain

theorem asciiText_ipv4Text (octets : Vector UInt8 4) :
    asciiText ((IpAddr.ipv4Text octets).map fun char => UInt8.ofNat char.toNat) =
      IpAddr.ipv4Text octets := by
  rw [asciiText, List.map_map, List.map_congr_left, List.map_id]
  intro char member
  exact (isPlain_of_mem_ipv4Text member).1

/-- The dotted quad of every IPv4 address is such a text. -/
def AddressText.ofIpv4 (octets : Vector UInt8 4) : AddressText where
  bytes := (IpAddr.ipv4Text octets).map fun char => UInt8.ofNat char.toNat
  address := .v4 octets
  visible := by
    rw [List.all_map, List.all_eq_true]
    intro char member
    exact (isPlain_of_mem_ipv4Text member).2.1
  noComma := by
    rw [asciiText_ipv4Text]
    intro member
    exact (isPlain_of_mem_ipv4Text member).2.2.1 rfl
  parses := by
    rw [asciiText_ipv4Text, trim_eq_self, IpAddr.parse_ipv4Text]
    intro char member
    exact (isPlain_of_mem_ipv4Text member).2.2.2

/-- The headers of a caller, all under the caller's control. -/
structure ClientRequest where
  forwardedFor : Option (List UInt8)
  others : HeaderMap
  others_get : others.get "x-forwarded-for" = none

namespace ClientRequest

/-- The bytes of a comma and a blank. -/
def separator : List UInt8 := [0x2c, 0x20]

/-- The caller's `x-forwarded-for` value in front of what is appended. -/
def forwardedPrefix (request : ClientRequest) : List UInt8 :=
  match request.forwardedFor with
  | some value => value ++ separator
  | none => []

/-- The headers behind the load balancer. -/
def forward (request : ClientRequest) (client loadBalancer : AddressText) : HeaderMap :=
  ("x-forwarded-for", request.forwardedPrefix ++ client.bytes ++ separator ++
    loadBalancer.bytes) :: request.others

/-- The caller's `x-forwarded-for` value, if any, is visible ASCII. -/
def Readable (request : ClientRequest) : Prop :=
  ∀ value ∈ request.forwardedFor, value.all isVisibleAscii = true

end ClientRequest

theorem asciiText_append (left right : List UInt8) :
    asciiText (left ++ right) = asciiText left ++ asciiText right := by
  simp [asciiText]

/-- The rightmost two items decide when both of them are addresses. -/
theorem forwardedIp_of_splitOn {value client loadBalancer : List Char} {items : List (List Char)}
    {clientIp balancerIp : IpAddr}
    (split : value.splitOn ',' = items ++ [client, loadBalancer])
    (parsesClient : IpAddr.parse (trim client) = some clientIp)
    (parsesBalancer : IpAddr.parse (trim loadBalancer) = some balancerIp) :
    forwardedIp value = some clientIp := by
  simp [forwardedIp, split, parsesClient, parsesBalancer]

theorem AddressText.splitOn_text (address : AddressText) :
    (asciiText address.bytes).splitOn ',' = [asciiText address.bytes] :=
  List.splitOn_eq_singleton address.noComma

theorem AddressText.splitOn_space (address : AddressText) :
    (' ' :: asciiText address.bytes).splitOn ',' = [' ' :: asciiText address.bytes] :=
  List.splitOn_eq_singleton (by simp [address.noComma])

namespace ClientRequest

variable {request : ClientRequest} {client loadBalancer : AddressText}

theorem get_forward : (request.forward client loadBalancer).get "x-forwarded-for" =
    some (request.forwardedPrefix ++ client.bytes ++ separator ++ loadBalancer.bytes) := by
  simp [forward, HeaderMap.get]

theorem platformIp_forward (peerIp : IpAddr) :
    platformIp (request.forward client loadBalancer) peerIp = platformIp request.others peerIp := by
  simp [platformIp, forward, HeaderMap.get]

/-- A readable value still is one with the two addresses appended, and its
second address from the right is the client. -/
theorem forwardedIp_of_readable (readable : request.Readable) :
    (toStr (request.forwardedPrefix ++ client.bytes ++ separator ++ loadBalancer.bytes)).bind
      forwardedIp = some client.address := by
  have blank : separator.all isVisibleAscii = true := by decide
  have text : asciiText separator = [',', ' '] := by decide
  have parsesSpace : ∀ address : AddressText,
      IpAddr.parse (trim (' ' :: asciiText address.bytes)) = some address.address := by
    intro address
    rw [trim_space_cons]
    exact address.parses
  cases supplied : request.forwardedFor with
  | none =>
      have visible : (([] : List UInt8) ++ client.bytes ++ separator ++ loadBalancer.bytes).all
          isVisibleAscii = true := by
        simp [List.all_append, client.visible, loadBalancer.visible, blank]
      have split : (asciiText ([] ++ client.bytes ++ separator ++ loadBalancer.bytes)).splitOn ',' =
          [] ++ [asciiText client.bytes, ' ' :: asciiText loadBalancer.bytes] := by
        simp [asciiText_append, text, List.splitOn_append_cons_self, client.splitOn_text,
          loadBalancer.splitOn_space]
      simp only [forwardedPrefix, supplied, toStr, visible, if_true, Option.bind_some]
      exact forwardedIp_of_splitOn split client.parses (parsesSpace loadBalancer)
  | some value =>
      have visibleValue := readable value supplied
      have visible : (value ++ separator ++ client.bytes ++ separator ++ loadBalancer.bytes).all
          isVisibleAscii = true := by
        simp [List.all_append, visibleValue, client.visible, loadBalancer.visible, blank]
      have split : (asciiText (value ++ separator ++ client.bytes ++ separator ++
          loadBalancer.bytes)).splitOn ',' = (asciiText value).splitOn ',' ++
            [' ' :: asciiText client.bytes, ' ' :: asciiText loadBalancer.bytes] := by
        have inner : (' ' :: (asciiText client.bytes ++ ',' :: ' ' ::
            asciiText loadBalancer.bytes)).splitOn ',' =
            [' ' :: asciiText client.bytes, ' ' :: asciiText loadBalancer.bytes] := by
          rw [← List.cons_append, List.splitOn_append_cons_self, client.splitOn_space,
            loadBalancer.splitOn_space]
          rfl
        simp only [asciiText_append, text, List.append_assoc, List.cons_append, List.nil_append,
          List.splitOn_append_cons_self, inner]
      simp only [forwardedPrefix, supplied, toStr, visible, if_true, Option.bind_some]
      exact forwardedIp_of_splitOn split (parsesSpace client) (parsesSpace loadBalancer)

/-- One opaque byte of the caller makes the whole value unreadable. -/
theorem toStr_of_not_readable (hidden : ¬ request.Readable) :
    toStr (request.forwardedPrefix ++ client.bytes ++ separator ++ loadBalancer.bytes) = none := by
  simp only [Readable, not_forall] at hidden
  obtain ⟨value, supplied, unreadable⟩ := hidden
  have supplied : request.forwardedFor = some value := supplied
  simp [toStr, forwardedPrefix, supplied, List.all_append, unreadable]

/-- The rate-limit key of a request is its client's address exactly when the
caller's `x-forwarded-for` value is readable, or the address that the fallbacks
name is the client's anyway. -/
theorem clientIp_forward_iff (request : ClientRequest) (client loadBalancer : AddressText)
    (peerIp : IpAddr) :
    clientIp (request.forward client loadBalancer) peerIp = client.address ↔
      request.Readable ∨ platformIp request.others peerIp = client.address := by
  simp only [clientIp, get_forward, Option.bind_some, platformIp_forward]
  by_cases readable : request.Readable
  · rw [forwardedIp_of_readable readable]
    simp [readable]
  · rw [toStr_of_not_readable readable]
    simp [readable]

/-- A caller that sends one opaque byte, and `platform` under the name of the
platform header. -/
def spoofed (platform : List UInt8) : ClientRequest where
  forwardedFor := some [0x80]
  others := [("x-appengine-user-ip", platform)]
  others_get := rfl

/-- With one opaque byte the caller chooses the key: it is not the client's
address, and it changes with the caller's headers. -/
theorem not_nonspoofable :
    (¬ ∀ (request : ClientRequest) (client loadBalancer : AddressText) (peerIp : IpAddr),
      clientIp (request.forward client loadBalancer) peerIp = client.address) ∧
    (¬ ∀ (first second : ClientRequest) (client loadBalancer : AddressText) (peerIp : IpAddr),
      clientIp (first.forward client loadBalancer) peerIp =
        clientIp (second.forward client loadBalancer) peerIp) := by
  let clientText := AddressText.ofIpv4 #v[198, 51, 100, 4]
  let loadBalancerText := AddressText.ofIpv4 #v[192, 0, 2, 8]
  have chosen : clientIp ((spoofed [49, 46, 49, 46, 49, 46, 49]).forward clientText
      loadBalancerText) (.v4 #v[10, 0, 0, 1]) = .v4 #v[1, 1, 1, 1] := by decide
  have chosenAgain : clientIp ((spoofed [50, 46, 50, 46, 50, 46, 50]).forward clientText
      loadBalancerText) (.v4 #v[10, 0, 0, 1]) = .v4 #v[2, 2, 2, 2] := by decide
  constructor
  · intro same
    have equal := same (spoofed [49, 46, 49, 46, 49, 46, 49]) clientText loadBalancerText
      (.v4 #v[10, 0, 0, 1])
    rw [chosen] at equal
    exact absurd equal (by decide)
  · intro same
    have equal := same (spoofed [49, 46, 49, 46, 49, 46, 49]) (spoofed [50, 46, 50, 46, 50, 46, 50])
      clientText loadBalancerText (.v4 #v[10, 0, 0, 1])
    rw [chosen, chosenAgain] at equal
    exact absurd equal (by decide)

end ClientRequest
end Solpg.Server.Routes.Learning
