import Logalot.Lib.JsonEncode

/-!
# Mail of the alert evaluator

`buildMessage` (`services/alert-evaluator/internal/adapters/notify/smtp.go`): the
headers of a message from sanitized values, and its body. The clock is read for
the date and again for the message id, which has twelve random bytes.
-/

namespace Go

def shortDayNames : List Bytes := [bs "Sun", bs "Mon", bs "Tue", bs "Wed", bs "Thu", bs "Fri", bs "Sat"]

def shortMonthNames : List Bytes :=
  [bs "Jan", bs "Feb", bs "Mar", bs "Apr", bs "May", bs "Jun", bs "Jul", bs "Aug", bs "Sep", bs "Oct",
    bs "Nov", bs "Dec"]

/-- `t.UTC().Format(time.RFC1123Z)`. -/
def formatRFC1123Z (t : Time) : Bytes :=
  let d := civil (unixDay t)
  let second := t / 1000000000 % 86400
  shortDayNames.getD ((unixDay t + 4) % 7).toNat [] ++ bs ", " ++ padInt d.day 2 ++ bs " " ++
    shortMonthNames.getD (d.month - 1).toNat [] ++ bs " " ++ padInt d.year 4 ++ bs " " ++ padInt (second / 3600) 2 ++
    bs ":" ++ padInt (second / 60 % 60) 2 ++ bs ":" ++ padInt (second % 60) 2 ++ bs " +0000"

example : formatRFC1123Z 1767323045000000000 = bs "Fri, 02 Jan 2026 03:04:05 +0000" := by decide

end Go

namespace Logalot.Mail

open Go

def sanitizeHeaderValue (v : Bytes) : Bytes := replaceAll (replaceAll v (bs "\r") []) (bs "\n") (bs " ")

def domain (sender : Bytes) : Bytes :=
  let after := (sender.reverse.takeWhile (· != 64)).reverse
  if 64 ∈ sender ∧ after ≠ [] then after else bs "localhost"

/-- The bytes as the verb `%x` writes them. -/
def hex (buf : Bytes) : Bytes := buf.flatMap fun b => [Json.hexByte (b / 16), Json.hexByte (b % 16)]

def newMessageID (stamp : Time) (buf sender : Bytes) : Bytes :=
  bs "<" ++ itoa stamp ++ bs "." ++ hex buf ++ bs "@" ++ domain sender ++ bs ">"

def buildMessage (now stamp : Time) (buf sender recipient subject body : Bytes) : Bytes :=
  bs "From: " ++ sanitizeHeaderValue sender ++ bs "\r\n" ++
    (bs "To: " ++ sanitizeHeaderValue recipient ++ bs "\r\n") ++
    (bs "Subject: " ++ sanitizeHeaderValue subject ++ bs "\r\n") ++
    (bs "Date: " ++ formatRFC1123Z now ++ bs "\r\n") ++
    (bs "Message-ID: " ++ newMessageID stamp buf sender ++ bs "\r\n") ++
    bs "MIME-Version: 1.0\r\n" ++
    bs "Content-Type: text/plain; charset=\"utf-8\"\r\n" ++
    bs "\r\n" ++ body

def headerNames : List Bytes :=
  [bs "From:", bs "To:", bs "Subject:", bs "Date:", bs "Message-ID:", bs "MIME-Version:", bs "Content-Type:"]

def OneLine (s : Bytes) : Prop := 13 ∉ s ∧ 10 ∉ s

instance (s : Bytes) : Decidable (OneLine s) := inferInstanceAs (Decidable (_ ∧ _))

end Logalot.Mail
