import DuneWeaver.Binary32.Value
import DuneWeaver.Bytes

namespace DuneWeaver.SandStatus

/-- A finite `float` with a magnitude below 10^15. -/
structure Reading where
  neg : Bool
  mag : Binary32.Magnitude
  hmag : mag.value < 10 ^ 15

def Reading.rat (v : Reading) : ℚ := Binary32.Value.rat v.neg v.mag

/-- Strings are read to their NUL, and a `const char*` may be null. A `long` has 32 bits. -/
structure Data where
  state : Bytes
  kinematics : Option Bytes
  cartesian : Bool
  theta : Reading
  rho : Reading
  feed : Reading
  feed_override : Int32
  running : Bool
  file : Bytes
  progress : Reading
  elapsed : Int32
  playlist_active : Bool
  playlist_index : Int32
  playlist_total : Int32
  playlist_pause_remaining : Int32
  playlist_pause_total : Int32
  playlist_name : Bytes
  playlist_next : Bytes
  playlist_last : Bytes
  playlist_clearing : Bool
  quiet : Bool
  has_led : Bool
  led_effect : Bytes
  led_active : Option Bytes
  led_override : Option Bytes
  led_brightness : Int32
  led_rgbw : Bool
  has_sd : Bool
  sd_ok : Bool
  last_reset : Option Bytes
  uptime : Int32
  heap : Int32
  heap_min : Int32
  heap_largest : Int32
  fw : Option Bytes
  mcu : Option Bytes
  mac : Option Bytes
  hostname : Option Bytes

/-- `%.*f` into a buffer of 24 bytes. -/
def append_float (out : Bytes) (v : Reading) (prec : Nat) : Bytes :=
  out ++ (Decimal.fixed prec v.neg v.mag.value).take 23

/-- `%d` into a buffer of 16 bytes. -/
def append_int (out : Bytes) (v : Int32) : Bytes :=
  out ++ (Decimal.sign (v.toInt < 0) ++ Decimal.ofNat v.toInt.natAbs).take 15

/-- A hexadecimal digit of `%x`. -/
def hexChar (n : Nat) : UInt8 := if n < 10 then 48 + n.toUInt8 else 87 + n.toUInt8

/-- One character of a string literal. -/
def escape (c : UInt8) : Bytes :=
  if c = 34 then bytes "\\\""
  else if c = 92 then bytes "\\\\"
  else if c = 10 then bytes "\\n"
  else if c = 13 then bytes "\\r"
  else if c = 9 then bytes "\\t"
  else if c < 32 then bytes "\\u00" ++ [hexChar (c.toNat / 16), hexChar (c.toNat % 16)]
  else [c]

/-- Append `s` as a JSON string literal. -/
def append_escaped (out s : Bytes) : Bytes := ((c_str s).foldl (fun out c => out ++ escape c) (out ++ [34])) ++ [34]

def member_str (out : Bytes) (key : String) (value : Bytes) : Bytes :=
  append_escaped (out ++ [34] ++ bytes key ++ bytes "\":") value

/-- `d.last_reset && *d.last_reset`: the string is there and not empty. -/
def present : Option Bytes → Bool
  | none => false
  | some s => (c_str s).head?.isSome

def append_bool (out : Bytes) (b : Bool) : Bytes := out ++ if b then bytes "true" else bytes "false"

section Encode

variable (d : Data)

/-- Theta and rho, or the coordinates of a gantry. -/
def encodePosition (o : Bytes) : Bytes :=
  if d.cartesian then
    let o := append_float (o ++ bytes ",\"x\":") d.theta 3
    append_float (o ++ bytes ",\"y\":") d.rho 3
  else
    let o := append_float (o ++ bytes ",\"theta\":") d.theta 4
    append_float (o ++ bytes ",\"rho\":") d.rho 4

def encodeJob (o : Bytes) : Bytes :=
  let o := append_float (o ++ bytes ",\"feed\":") d.feed 0
  let o := append_int (o ++ bytes ",\"feed_override\":") d.feed_override
  let o := append_bool (o ++ bytes ",\"running\":") d.running
  let o := append_escaped (o ++ bytes ",\"file\":") d.file
  let o := o ++ bytes ",\"progress\":"
  -- 0..1 fraction; <0 means unknown
  let o := if d.progress.rat < 0 then o ++ bytes "-1" else append_float o d.progress 3
  append_int (o ++ bytes ",\"elapsed\":") (if d.elapsed < 0 then -1 else d.elapsed)

def encodePlaylist (o : Bytes) : Bytes :=
  let o := o ++ bytes ",\"playlist\":\x7b"
  let o := append_bool (o ++ bytes "\"active\":") d.playlist_active
  let o := append_int (o ++ bytes ",\"index\":") d.playlist_index
  let o := append_int (o ++ bytes ",\"total\":") d.playlist_total
  let o := member_str (o ++ bytes ",") "name" d.playlist_name
  let o := member_str (o ++ bytes ",") "next" d.playlist_next
  let o := member_str (o ++ bytes ",") "last" d.playlist_last
  let o := append_bool (o ++ bytes ",\"clearing\":") d.playlist_clearing
  let o := append_bool (o ++ bytes ",\"quiet\":") d.quiet
  let o := append_int (o ++ bytes ",\"pause_remaining\":") d.playlist_pause_remaining
  let o := append_int (o ++ bytes ",\"pause_total\":") d.playlist_pause_total
  o ++ bytes "\x7d"

def encodeLed (o : Bytes) : Bytes :=
  if d.has_led then
    let o := member_str (o ++ bytes ",\"led\":\x7b") "effect" d.led_effect
    let o := member_str (o ++ bytes ",") "active" (if present d.led_active then d.led_active.getD [] else d.led_effect)
    let o := if present d.led_override then member_str (o ++ bytes ",") "override" (d.led_override.getD []) else o
    let o := append_int (o ++ bytes ",\"brightness\":") d.led_brightness
    let o := append_bool (o ++ bytes ",\"rgbw\":") d.led_rgbw
    o ++ bytes "\x7d"
  else o

/-- A string that is left out if it is null or empty. -/
def encodeOptional (key : String) (value : Option Bytes) (o : Bytes) : Bytes :=
  if present value then member_str (o ++ bytes ",") key (value.getD []) else o

/-- A number that is left out if it is negative. -/
def encodeCounter (opening : String) (value : Int32) (o : Bytes) : Bytes :=
  if value ≥ 0 then append_int (o ++ bytes opening) value else o

def encodeDevice (o : Bytes) : Bytes :=
  let o := if d.has_sd then append_bool (o ++ bytes ",\"sd_ok\":") d.sd_ok else o
  let o := encodeOptional "last_reset" d.last_reset o
  let o := encodeCounter ",\"uptime\":" d.uptime o
  let o := encodeCounter ",\"heap\":" d.heap o
  let o := encodeCounter ",\"heap_min\":" d.heap_min o
  let o := encodeCounter ",\"heap_largest\":" d.heap_largest o
  let o := encodeOptional "fw" d.fw o
  let o := encodeOptional "mcu" d.mcu o
  let o := encodeOptional "mac" d.mac o
  encodeOptional "hostname" d.hostname o

/-- Compact single-line JSON object for the status. -/
def encode : Bytes :=
  let o := member_str (bytes "\x7b") "state" d.state
  let o :=
    match d.kinematics with
    | some kinematics => member_str (o ++ bytes ",") "kinematics" kinematics
    | none => o
  let o := encodeDevice d (encodeLed d (encodePlaylist d (encodeJob d (encodePosition d o))))
  o ++ bytes "\x7d"

end Encode

/-- JSON object of string key/value pairs. -/
def encode_object (items : List (Bytes × Bytes)) : Bytes :=
  let o := items.zipIdx.foldl (fun o ((key, value), i) =>
    let o := if i ≠ 0 then o ++ bytes "," else o
    append_escaped (append_escaped o key ++ bytes ":") value) (bytes "\x7b")
  o ++ bytes "\x7d"

end DuneWeaver.SandStatus
