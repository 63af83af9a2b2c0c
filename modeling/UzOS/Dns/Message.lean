import UzOS.Lib.Checked

/-! DNS messages (core/dns/dns.c): building a question and reading an answer.
Every byte of the message that is read and every byte of a buffer that is
written goes through a checked access. -/
namespace UzOS.Dns

open Checked

abbrev dnsNameMax : Nat := 128
abbrev dnsMaxRecords : Nat := 12
def msgMax : Nat := 512
def flagQr : U16 := 0x8000
def flagRd : U16 := 0x0100
def classIn : U16 := 1
def maxPointers : Nat := 8
def headerSize : Nat := 12

def dnsTypeA : U16 := 1
def dnsTypeNs : U16 := 2
def dnsTypeCname : U16 := 5
def dnsTypePtr : U16 := 12
def dnsTypeMx : U16 := 15
def dnsTypeTxt : U16 := 16
def dnsTypeAaaa : U16 := 28

def dot : U8 := 46
def colon : U8 := 58

/-- A C string: its bytes up to the NUL. -/
abbrev CString := { s : List U8 // 0 ∉ s }

abbrev Text := Buf dnsNameMax

def lower (c : U8) : U8 := if 65 ≤ c ∧ c ≤ 90 then c + 32 else c

/-- same_name of the string in a buffer, from index `i` on, and a C string. -/
def sameName (a : Text) (i : Nat) : List U8 → Except Fault Bool
  | [] => load (List.ofFn a) i >>= fun c => .ok (lower c == lower 0)
  | b :: rest => load (List.ofFn a) i >>= fun c =>
    if c ≠ 0 ∧ lower c = lower b then sameName a (i + 1) rest else .ok (lower c == lower b)

/-! Building a question. -/

/-- The loop of encode_name; it takes a byte of the name a round at least. -/
def encodeLoop (max : Nat) : Nat → List U8 → List U8 → Option (List U8)
  | _, [], out => some (out ++ [0])
  | 0, _ :: _, _ => none
  | rounds + 1, c :: cs, out =>
    let label := (c :: cs).takeWhile (· ≠ dot)
    if label.length = 0 ∨ label.length > 63 ∨ out.length + label.length + 2 > max then none
    else
      let rest := (c :: cs).drop label.length
      encodeLoop max rounds (rest.drop 1) (out ++ BitVec.ofNat 8 label.length :: label)

/-- The bytes written, or `none` where the source returns 0. -/
def encodeName (name : List U8) (max : Nat) : Option (List U8) :=
  encodeLoop max name.length name []

def bytes16 (x : U16) : List U8 := [(x >>> 8).setWidth 8, x.setWidth 8]

def buildQuery (id : U16) (name : CString) (type : U16) : Option (List U8) :=
  (encodeName name.val (msgMax - headerSize - 4)).map fun question =>
    bytes16 id ++ bytes16 flagRd ++ bytes16 1 ++ bytes16 0 ++ bytes16 0 ++ bytes16 0 ++ question ++
      bytes16 type ++ bytes16 classIn

/-! Reading an answer. -/

/-- The variables of read_name. -/
structure Walk where
  pos : Nat
  here : Nat
  n : Nat
  jumped : Bool
  pointers : Nat
  out : Text

/-- Put a dot behind what is already there. -/
def putDot (n : Nat) (out : Text) : Except Fault (Nat × Text) :=
  if n ≠ 0 then store out n dot >>= fun out => .ok (n + 1, out) else .ok (n, out)

/-- Where a compression pointer leads. -/
def target (size low : U8) : Nat := ((size &&& 0x3F#8) ++ low).toNat

def readNameLoop (msg : List U8) : Nat → Walk → Except Fault (Bool × Walk)
  | 0, _ => .error .unfinished
  | rounds + 1, w =>
    if w.here ≥ msg.length then .ok (false, w)
    else load msg w.here >>= fun size =>
      if size &&& 0xC0#8 = 0xC0#8 then
        -- a pointer: the rest of the name is elsewhere
        if w.here + 1 ≥ msg.length ∨ w.pointers + 1 > maxPointers then .ok (false, w)
        else load msg (w.here + 1) >>= fun low =>
          readNameLoop msg rounds
            { w with
              pos := if w.jumped then w.pos else w.here + 2
              jumped := true, pointers := w.pointers + 1, here := target size low }
      else if size = 0 then
        store w.out w.n 0 >>= fun out =>
          .ok (true, { w with out := out, pos := if w.jumped then w.pos else w.here + 1 })
      else if size.toNat > 63 ∨ w.here + 1 + size.toNat > msg.length ∨
          w.n + size.toNat + 2 > dnsNameMax then .ok (false, w)
      else putDot w.n w.out >>= fun (n, out) =>
        copy out n msg (w.here + 1) size.toNat >>= fun out =>
          readNameLoop msg rounds
            { w with n := n + size.toNat, here := w.here + 1 + size.toNat, out := out }

/-- read_name: whether there is a name, and the position and buffer after. The
length of the buffer and the limit on pointers bound the rounds. -/
def readName (msg : List U8) (pos : Nat) (out : Text) : Except Fault (Bool × Walk) :=
  readNameLoop msg (dnsNameMax + maxPointers + 1) ⟨pos, pos, 0, false, 0, out⟩

/-- dns_record_t -/
structure Record where
  name : Text
  type : U16
  ttl : U32
  ip : U32
  preference : U16
  text : Text

/-- dns_result_t, as far as parse_answer fills it in. -/
structure Result where
  rcode : Int
  flags : U16
  count : Nat
  answers : Fin dnsMaxRecords → Record

/-- A number in hex, as `%x` prints it. -/
def hex (v : U16) : List U8 := (Nat.toDigits 16 v.toNat).map fun c => BitVec.ofNat 8 c.toNat

/-- format(out + start, sizeof(out) - start, ...) of a text; the length it returns. -/
def format (out : Text) (start : Nat) (chars : List U8) : Except Fault (Text × Nat) :=
  if dnsNameMax ≤ start then .ok (out, 0)
  else
    let kept := chars.take (dnsNameMax - start - 1)
    storeAll out start kept >>= fun out =>
      store out (start + kept.length) 0 >>= fun out => .ok (out, kept.length)

/-- The loop that prints an IPv6 address, with the groups left. -/
def aaaaLoop (msg : List U8) (start : Nat) : Nat → Nat → Nat → Text → Except Fault Text
  | 0, _, _, text => .ok text
  | left + 1, i, n, text =>
    load16 msg (start + i) >>= fun v =>
      format text n (if i ≠ 0 then colon :: hex v else hex v) >>= fun (text, k) =>
        aaaaLoop msg start left (i + 2) (n + k) text

/-- The length of the first character-string of a TXT record. -/
def txtSize (msg : List U8) (start rdlen : Nat) : Except Fault Nat :=
  (if rdlen ≠ 0 then load msg start else .ok 0) >>= fun first =>
    let size : Int := if (dnsNameMax : Int) ≤ first.toNat then dnsNameMax - 1 else first.toNat
    let size : Int := if size > (rdlen : Int) - 1 then (rdlen : Int) - 1 else size
    .ok (if size > 0 then size else 0).toNat

def readRecordData (msg : List U8) (start rdlen : Nat) (r : Record) : Except Fault Record :=
  store r.text 0 0 >>= fun text =>
    if r.type = dnsTypeA then
      if rdlen = 4 then load32 msg start >>= fun ip => .ok { r with ip := ip, text := text }
      else .ok { r with text := text }
    else if r.type = dnsTypeCname ∨ r.type = dnsTypeNs ∨ r.type = dnsTypePtr then
      readName msg start text >>= fun (_, w) => .ok { r with text := w.out }
    else if r.type = dnsTypeMx then
      if rdlen ≥ 3 then
        load16 msg start >>= fun preference =>
          readName msg (start + 2) text >>= fun (_, w) =>
            .ok { r with preference := preference, text := w.out }
      else .ok { r with text := text }
    else if r.type = dnsTypeTxt then
      txtSize msg start rdlen >>= fun size =>
        copy text 0 msg (start + 1) size >>= fun text =>
          store text size 0 >>= fun text => .ok { r with text := text }
    else if r.type = dnsTypeAaaa then
      if rdlen = 16 then aaaaLoop msg start 8 0 0 text >>= fun text => .ok { r with text := text }
      else .ok { r with text := text }
    else .ok { r with text := text }

def Result.set (out : Result) (i : Fin dnsMaxRecords) (r : Record) : Result :=
  { out with answers := Function.update out.answers i r }

/-- The loop of parse_answer, with the answers left. -/
def answersLoop (msg : List U8) : Nat → Nat → Result → Except Fault Result
  | 0, _, out => .ok out
  | left + 1, pos, out =>
    if room : out.count < dnsMaxRecords then
      let i : Fin dnsMaxRecords := ⟨out.count, room⟩
      let r := out.answers i
      readName msg pos r.name >>= fun (found, w) =>
        let r := { r with name := w.out }
        if !found || w.pos + 10 > msg.length then .ok (out.set i r)
        else load16 msg w.pos >>= fun type =>
          load16 msg (w.pos + 2) >>= fun cls =>
            load32 msg (w.pos + 4) >>= fun ttl =>
              load16 msg (w.pos + 8) >>= fun rdlen =>
                let r := { r with type := type, ttl := ttl }
                -- the data runs past the end
                if w.pos + 10 + rdlen.toNat > msg.length then .ok (out.set i r)
                else if cls = classIn then
                  readRecordData msg (w.pos + 10) rdlen.toNat r >>= fun r =>
                    answersLoop msg left (w.pos + 10 + rdlen.toNat)
                      { out.set i r with count := out.count + 1 }
                else answersLoop msg left (w.pos + 10 + rdlen.toNat) (out.set i r)
    else .ok out

/-- parse_answer: whether the message is the answer to our question, and the
result. `qname` is the local buffer before anything is written to it. -/
def parseAnswer (msg : List U8) (id : U16) (name : CString) (type : U16) (qname : Text)
    (out : Result) : Except Fault (Bool × Result) :=
  if msg.length < headerSize then .ok (false, out)
  else load16 msg 0 >>= fun theirId =>
    load16 msg 2 >>= fun flags =>
      load16 msg 4 >>= fun qdcount =>
        if theirId ≠ id ∨ flags &&& flagQr = 0 ∨ qdcount ≠ 1 then .ok (false, out)
        else readName msg headerSize qname >>= fun (found, w) =>
          if !found || w.pos + 4 > msg.length then .ok (false, out)
          else sameName w.out 0 name.val >>= fun same =>
            if !same then .ok (false, out)
            else load16 msg w.pos >>= fun asked =>
              if asked ≠ type then .ok (false, out)
              else load16 msg 6 >>= fun ancount =>
                answersLoop msg ancount.toNat (w.pos + 4)
                  { out with
                    flags := flags, rcode := ((flags &&& 0xF#16).toNat : Int), count := 0 } >>=
                  fun out => .ok (true, out)

/-- The result dns_query starts with (memset). -/
def Result.cleared : Result :=
  ⟨0, 0, 0, fun _ => ⟨fun _ => 0, 0, 0, 0, 0, fun _ => 0⟩⟩

/-- The datagrams dns_query receives: those that are not the answer are ignored. -/
def hearReplies (id : U16) (name : CString) (type : U16) :
    List (List U8 × Text) → Result → Except Fault Result
  | [], out => .ok out
  | (msg, qname) :: rest, out =>
    parseAnswer msg id name type qname out >>= fun (ours, out) =>
      if ours then .ok out else hearReplies id name type rest out

end UzOS.Dns
