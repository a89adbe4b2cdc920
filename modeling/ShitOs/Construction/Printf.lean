import ShitOs.Construction.Abi

/-!
# Formatted output

A model of `emit`, `render_unsigned`, `render_double` and what it calls, `format_into`, `vfprintf`
and `vsnprintf` in `user/libc/src/stdio.c`.  A format and every other C string is the list of its
bytes without the NUL.  A text that is put together in an array of the stack is `none` if it is
written outside of that array.

A `va_list` has general arguments, of 64 bits each, of which an `int` is the lower half, and
floating ones.  What a pointer points to and the arithmetic of `double`, with `floor`, `log10` and
`pow`, is left to the `Platform`.

`int` wraps here, where C leaves it open.  A directive takes a number of bytes of the format;
`formatInto` skips them, so that it is by recursion on the format.
-/

namespace ShitOs

/-- The byte of an ASCII character. -/
def ascii (c : Char) : UInt8 := UInt8.ofNat c.toNat

/-- The bytes of a string. -/
def bytesOf (s : String) : List UInt8 := s.toList.map ascii

namespace Printf

/-! ## The sink -/

/-- `Sink`.  What has been written to `stream` is kept, if there is one. -/
structure Sink where
  stream : Option (List UInt8)
  buffer : ℕ → UInt8
  capacity : ℕ
  written : ℕ

def Sink.emit (sink : Sink) (c : UInt8) : Sink :=
  match sink.stream with
  | some bytes => { sink with stream := some (bytes ++ [c]), written := sink.written + 1 }
  | none =>
    { sink with
      buffer := if sink.capacity ≠ 0 ∧ sink.written + 1 < sink.capacity then
          Function.update sink.buffer sink.written c
        else sink.buffer
      written := sink.written + 1 }

/-- `emit_string`, and the loops that emit a byte so many times. -/
def Sink.emitString (sink : Sink) (s : List UInt8) : Sink := s.foldl Sink.emit sink

/-! ## Numbers -/

/-- `digits[d]`. -/
def digitOf (uppercase : Bool) (d : ℕ) : UInt8 :=
  (bytesOf (if uppercase then "0123456789ABCDEF" else "0123456789abcdef")).getD d 0

/-- The loops of `render_unsigned` and `render_fixed` over the digits of a number, from the last of
them on, with room for so many. -/
def renderLoop (base : ℕ) (uppercase : Bool) : ℕ → ℕ → List UInt8 → Option (List UInt8)
  | 0, value, p => if value = 0 then some p else none
  | room + 1, value, p =>
    if value = 0 then some p
    else renderLoop base uppercase room (value / base) (digitOf uppercase (value % base) :: p)

def renderDigits (base : ℕ) (uppercase : Bool) (room value : ℕ) : Option (List UInt8) :=
  if value = 0 then some [ascii '0'] else renderLoop base uppercase room value []

/-- `render_unsigned`, into `scratch`. -/
def renderUnsigned (value : U64) (base : ℕ) (uppercase : Bool) : Option (List UInt8) :=
  renderDigits base uppercase 31 value.toNat

/-! ## Floating point -/

def FLOAT_SCRATCH : ℕ := 512
def MAX_FLOAT_PRECISION : ℤ := 60

/-- The arithmetic of `double`.  `literal n` is `1e<n>`, `power n` is `pow(10.0, n)`, and
`logarithm` is `(int)floor(log10(_))`. -/
structure Arithmetic (D : Type) where
  ofInt : ℤ → D
  half : D
  neg : D → D
  (add sub mul div : D → D → D)
  (eq lt le : D → D → Bool)
  signBit : D → Bool
  (toU64 toI64 : D → U64)
  (literal power : ℤ → D)
  logarithm : D → ℤ

namespace Arithmetic

variable {D : Type} (d : Arithmetic D)

def isNanDouble (v : D) : Bool := !d.eq v v

def isInfDouble (v : D) : Bool := !d.eq v (d.ofInt 0) && d.eq (d.mul v d.half) v

def roundHalfAway (v : D) : D :=
  let integral := d.ofInt (d.toI64 v).toInt
  let fraction := d.sub v integral
  if d.le d.half fraction then d.add integral (d.ofInt 1)
  else if d.le fraction (d.neg d.half) then d.sub integral (d.ofInt 1)
  else integral

/-- The loops that make a power of ten of a precision. -/
def scale (precision : ℤ) : D := (fun x => d.mul x (d.ofInt 10))^[precision.toNat] (d.ofInt 1)

/-- A text and its NUL in the buffer for it. -/
def scratch (text : List UInt8) : Option (List UInt8) :=
  if text.length < FLOAT_SCRATCH then some text else none

/-- The digits behind the point, the last of which is the first that is written. -/
def fracDigits : ℕ → ℕ → List UInt8
  | 0, _ => []
  | n + 1, frac => fracDigits n (frac / 10) ++ [digitOf false (frac % 10)]

/-- `whole` and `frac` in `render_fixed`. -/
def fixedParts (magnitude : D) (precision : ℤ) : U64 × U64 :=
  let integral := d.ofInt (d.toU64 magnitude).toNat
  let scaled := d.roundHalfAway (d.mul (d.sub magnitude integral) (d.scale precision))
  if d.le (d.scale precision) scaled then
    (d.toU64 (d.add integral (d.ofInt 1)), d.toU64 (d.sub scaled (d.scale precision)))
  else (d.toU64 integral, d.toU64 scaled)

/-- `render_fixed`.  There is room for 32 digits before the point and for 61 behind it. -/
def renderFixed (magnitude : D) (precision : ℤ) : Option (List UInt8) :=
  let parts := d.fixedParts magnitude precision
  (renderDigits 10 false 32 parts.1.toNat).bind fun digits =>
    if precision ≤ 0 then scratch digits
    else if MAX_FLOAT_PRECISION + 1 < precision then none
    else scratch (digits ++ ascii '.' :: fracDigits precision.toNat parts.2.toNat)

def exactPowerOfTen (exponent : ℤ) : D :=
  if -22 ≤ exponent ∧ exponent ≤ 22 then d.literal exponent else d.power exponent

/-- `decimal_exponent_of`.  Both of its loops are taken twice at most. -/
def decimalExponentOf (magnitude : D) : ℤ :=
  if d.eq magnitude (d.ofInt 0) then 0
  else
    let down := fun e => if d.lt magnitude (d.exactPowerOfTen e) then e - 1 else e
    let up := fun e => if d.le (d.exactPowerOfTen (e + 1)) magnitude then e + 1 else e
    up (up (down (down (d.logarithm magnitude))))

/-- The mantissa and the exponent that `render_scientific` writes. -/
def normalise (magnitude : D) (precision : ℤ) : D × ℤ :=
  if d.eq magnitude (d.ofInt 0) then (magnitude, 0)
  else
    let exponent := d.decimalExponentOf magnitude
    let mantissa := d.div magnitude (d.exactPowerOfTen exponent)
    let check := d.div (d.roundHalfAway (d.mul mantissa (d.scale precision))) (d.scale precision)
    if d.le (d.ofInt 10) check then (d.div mantissa (d.ofInt 10), exponent + 1)
    else (mantissa, exponent)

/-- `'0' + n`. -/
def zeroPlus (n : ℕ) : UInt8 := UInt8.ofNat (48 + n)

/-- The exponent as it is written. -/
def exponentText (exponent : ℤ) : List UInt8 :=
  let n := exponent.natAbs
  (if exponent < 0 then ascii '-' else ascii '+') ::
    if 100 ≤ n then [zeroPlus (n / 100), zeroPlus (n / 10 % 10), zeroPlus (n % 10)]
    else [zeroPlus (n / 10), zeroPlus (n % 10)]

def renderScientific (magnitude : D) (precision : ℤ) (exponentChar : UInt8) :
    Option (List UInt8) :=
  let parts := d.normalise magnitude precision
  (d.renderFixed parts.1 precision).bind fun text =>
    scratch (text ++ exponentChar :: exponentText parts.2)

def stripTrailingZeros (text : List UInt8) : List UInt8 :=
  let marker := if ascii 'e' ∈ text then ascii 'e' else ascii 'E'
  let mantissa := text.takeWhile (· ≠ marker)
  if ascii '.' ∉ mantissa then text
  else
    let last := (mantissa.reverse.dropWhile (· = ascii '0')).reverse
    (if last.getLast? = some (ascii '.') then last.dropLast else last) ++
      text.dropWhile (· ≠ marker)

/-- The precision that `%g` leaves for `render_fixed`, if it is not to be `render_scientific`. -/
def fixedPrecision (magnitude : D) (precision : ℤ) : Option ℤ :=
  let exponent := d.decimalExponentOf magnitude
  if exponent < -4 ∨ precision ≤ exponent then none else some (precision - 1 - exponent)

/-- The precision as `render_double` uses it. -/
def clamp (precision : BitVec 32) : ℤ :=
  if precision.toInt < 0 then 6 else min precision.toInt MAX_FLOAT_PRECISION

/-- The precision as `%g` uses it. -/
def generalPrecision (precision : BitVec 32) : ℤ :=
  if clamp precision = 0 then 1 else clamp precision

/-- `magnitude` in `render_double`. -/
def magnitude (value : D) : D := if d.lt value (d.ofInt 0) then d.neg value else value

def renderDouble (value : D) (precision : BitVec 32) (conversion : UInt8) (alternate : Bool) :
    Option (List UInt8) :=
  let uppercase := conversion ∈ bytesOf "FEG"
  let exponentChar := if uppercase then ascii 'E' else ascii 'e'
  if d.isNanDouble value then some (bytesOf (if uppercase then "NAN" else "nan"))
  else if d.isInfDouble value then some (bytesOf (if uppercase then "INF" else "inf"))
  else if conversion ∈ bytesOf "fF" then
    if d.le (d.ofInt (2 ^ 64)) (d.magnitude value) then
      d.renderScientific (d.magnitude value) (clamp precision) exponentChar
    else d.renderFixed (d.magnitude value) (clamp precision)
  else if conversion ∈ bytesOf "eE" then
    d.renderScientific (d.magnitude value) (clamp precision) exponentChar
  else
    let text := match d.fixedPrecision (d.magnitude value) (generalPrecision precision) with
      | none => d.renderScientific (d.magnitude value) (generalPrecision precision - 1) exponentChar
      | some precision => d.renderFixed (d.magnitude value) precision
    text.map fun text => if alternate then text else stripTrailingZeros text

/-- The sign that `format_into` puts before a `double`. -/
def negative (value : D) : Bool :=
  d.lt value (d.ofInt 0) || (d.eq value (d.ofInt 0) && d.signBit value)

end Arithmetic

/-! ## Directives -/

structure VaList (D : Type) where
  general : List U64
  floating : List D

/-- What the arguments stand for. -/
structure Platform (D : Type) where
  stringAt : U64 → List UInt8
  double : Arithmetic D

structure Flags where
  leftAlign : Bool := false
  zeroPad : Bool := false
  forceSign : Bool := false
  alternate : Bool := false

/-- The loop over the flags.  A space is skipped. -/
def parseFlags (flags : Flags) : List UInt8 → Flags × List UInt8
  | [] => (flags, [])
  | c :: p =>
    if c = ascii '-' then parseFlags { flags with leftAlign := true } p
    else if c = ascii '0' then parseFlags { flags with zeroPad := true } p
    else if c = ascii '+' then parseFlags { flags with forceSign := true } p
    else if c = ascii '#' then parseFlags { flags with alternate := true } p
    else if c = ascii ' ' then parseFlags flags p
    else (flags, c :: p)

/-- The loops over the digits of a width or a precision. -/
def parseNumber (n : BitVec 32) : List UInt8 → BitVec 32 × List UInt8
  | [] => (n, [])
  | c :: p =>
    if ascii '0' ≤ c ∧ c ≤ ascii '9' then parseNumber (n * 10 + BitVec.ofNat 32 (c.toNat - 48)) p
    else (n, c :: p)

/-- The length modifier: 0 for `int`, 1 for `long`, 2 for `long long`, 3 for `size_t`. -/
def parseLength (p : List UInt8) : ℕ × List UInt8 :=
  if p.head? = some (ascii 'z') then (3, p.drop 1)
  else if p.head? = some (ascii 'j') then (2, p.drop 1)
  else if p.head? = some (ascii 't') then (1, p.drop 1)
  else if p.head? = some (ascii 'L') then (0, p.drop 1)
  else if p.head? = some (ascii 'l') then
    if (p.drop 1).head? = some (ascii 'l') then (2, p.drop 2) else (1, p.drop 1)
  else if p.head? = some (ascii 'h') then
    if (p.drop 1).head? = some (ascii 'h') then (0, p.drop 2) else (0, p.drop 1)
  else (0, p)

variable {D : Type} (platform : Platform D)

/-- `va_arg` of 64 bits. -/
def VaList.takeLong (args : VaList D) : U64 × VaList D :=
  (args.general.headD 0, { args with general := args.general.tail })

/-- `va_arg` of an `int`. -/
def VaList.takeInt (args : VaList D) : BitVec 32 × VaList D :=
  (args.takeLong.1.setWidth 32, args.takeLong.2)

/-- A width. -/
def parseWidth (flags : Flags) (p : List UInt8) (args : VaList D) :
    Flags × BitVec 32 × List UInt8 × VaList D :=
  if p.head? = some (ascii '*') then
    let (width, args) := args.takeInt
    if width.toInt < 0 then ({ flags with leftAlign := true }, -width, p.drop 1, args)
    else (flags, width, p.drop 1, args)
  else
    let (width, p) := parseNumber 0 p
    (flags, width, p, args)

/-- A precision, or -1. -/
def parsePrecision (p : List UInt8) (args : VaList D) : BitVec 32 × List UInt8 × VaList D :=
  if p.head? = some (ascii '.') then
    if (p.drop 1).head? = some (ascii '*') then
      let (precision, args) := args.takeInt
      (precision, p.drop 2, args)
    else
      let (precision, p) := parseNumber 0 (p.drop 1)
      (precision, p, args)
  else (-1, p, args)

/-- What a conversion makes of its argument: what stands before the padding with zeros, what stands
behind it, and the precision that is left.  `none` if there is no such conversion. -/
def convert (flags : Flags) (precision : BitVec 32) (lengthModifier : ℕ) (conversion : UInt8)
    (args : VaList D) : Option (List UInt8 × Option (List UInt8) × BitVec 32 × VaList D) :=
  if conversion = ascii 'd' ∨ conversion = ascii 'i' then
    let (long, rest) := args.takeLong
    let value : U64 := if 1 ≤ lengthModifier then long else (long.setWidth 32).signExtend 64
    let negative := value.toInt < 0
    let magnitude := if negative then ~~~value + 1 else value
    some (if negative then bytesOf "-" else if flags.forceSign then bytesOf "+" else [],
      renderUnsigned magnitude 10 false, precision, rest)
  else if conversion = ascii 'u' ∨ conversion = ascii 'x' ∨ conversion = ascii 'X' ∨
      conversion = ascii 'o' then
    let (long, rest) := args.takeLong
    let value : U64 := if 1 ≤ lengthModifier then long else (long.setWidth 32).setWidth 64
    let sign := if ¬ flags.alternate then [] else if conversion = ascii 'x' then bytesOf "0x"
      else if conversion = ascii 'X' then bytesOf "0X" else []
    let base := if conversion = ascii 'x' ∨ conversion = ascii 'X' then 16
      else if conversion = ascii 'o' then 8 else 10
    some (sign, renderUnsigned value base (conversion = ascii 'X'), precision, rest)
  else if conversion = ascii 'p' then
    let (value, rest) := args.takeLong
    some (bytesOf "0x", renderUnsigned value 16 false, precision, rest)
  else if conversion ∈ bytesOf "fFeEgG" then
    let value := args.floating.headD (platform.double.ofInt 0)
    let sign := if platform.double.negative value then bytesOf "-"
      else if flags.forceSign then bytesOf "+" else []
    some (sign, platform.double.renderDouble value precision conversion flags.alternate, -1,
      { args with floating := args.floating.tail })
  else if conversion = ascii 'c' then
    let (value, rest) := args.takeInt
    -- the body is a string, so that a NUL ends it
    let c := UInt8.ofBitVec (value.setWidth 8)
    some ([], some (if c = 0 then [] else [c]), precision, rest)
  else if conversion = ascii 's' then
    let (pointer, rest) := args.takeLong
    some ([], some (if pointer = 0 then bytesOf "(null)" else platform.stringAt pointer), precision,
      rest)
  else none

/-- What stands between a `%` and its argument, and how many bytes of the format that is. -/
structure Directive where
  flags : Flags
  width : BitVec 32
  precision : BitVec 32
  lengthModifier : ℕ
  conversion : UInt8
  taken : ℕ

/-- The part of `format_into` from a `%` to the conversion.  `none` if the format ends here. -/
def parseDirective (p : List UInt8) (args : VaList D) : Option (Directive × VaList D) :=
  let (flags, rest) := parseFlags {} p
  let (flags, width, rest, args) := parseWidth flags rest args
  let (precision, rest, args) := parsePrecision rest args
  let (lengthModifier, rest) := parseLength rest
  match rest with
  | [] => none
  | conversion :: rest =>
    some (⟨flags, width, precision, lengthModifier, conversion, p.length - rest.length⟩, args)

/-- The bytes of a field, with its padding. -/
def fieldText (flags : Flags) (width : BitVec 32) (sign body : List UInt8) : List UInt8 :=
  let padding := (width.signExtend 64).toNat - (sign.length + body.length)
  if flags.leftAlign then sign ++ body ++ List.replicate padding (ascii ' ')
  else if flags.zeroPad then sign ++ List.replicate padding (ascii '0') ++ body
  else List.replicate padding (ascii ' ') ++ sign ++ body

/-- The part of `format_into` from the conversion on: what is emitted, and the arguments that are
left. -/
def Directive.output (d : Directive) (args : VaList D) : Option (List UInt8) × VaList D :=
  match convert platform d.flags d.precision d.lengthModifier d.conversion args with
  | none => (some [ascii '%', d.conversion], args)
  | some (sign, body, precision, args) =>
    (body.map fun body => fieldText d.flags d.width sign
      (if 0 ≤ precision.toInt ∧ d.conversion = ascii 's' ∧ precision.toNat < body.length then
        body.take precision.toNat else body), args)

/-- `format_into`, with so many bytes of the format to skip. -/
def formatInto : List UInt8 → ℕ → Sink → VaList D → Option Sink
  | [], _, sink, _ => some sink
  | _ :: p, skip + 1, sink, args => formatInto p skip sink args
  | c :: p, 0, sink, args =>
    if c ≠ ascii '%' then formatInto p 0 (sink.emit c) args
    else if p.head? = some (ascii '%') then formatInto p 1 (sink.emit (ascii '%')) args
    else
      match parseDirective p args with
      | none => some sink
      | some (d, args) =>
        match d.output platform args with
        | (none, _) => none
        | (some output, args) => formatInto p d.taken (sink.emitString output) args

/-- `vfprintf`: what is written to the stream, and the result. -/
def vfprintf (format : List UInt8) (args : VaList D) : Option (List UInt8 × BitVec 32) :=
  (formatInto platform format 0 ⟨some [], fun _ => 0, 0, 0⟩ args).map fun sink =>
    (sink.stream.getD [], BitVec.ofNat 32 sink.written)

/-- `vsnprintf`: the buffer, and the result. -/
def vsnprintf (buffer : ℕ → UInt8) (size : ℕ) (format : List UInt8) (args : VaList D) :
    Option ((ℕ → UInt8) × BitVec 32) :=
  (formatInto platform format 0 ⟨none, buffer, size, 0⟩ args).map fun sink =>
    (if size ≠ 0 then
        Function.update sink.buffer (if sink.written < size then sink.written else size - 1) 0
      else sink.buffer, BitVec.ofNat 32 sink.written)

end Printf
end ShitOs
