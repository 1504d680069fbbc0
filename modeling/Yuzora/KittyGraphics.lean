import Mathlib.Data.Rat.Floor
import Yuzora.KittyStream
/-!
# KittyGraphics — images and placements of a terminal

Commands come one after the other, each with what the terminal answers to it.  An image is the number of the `load` that
returned it; `disposals` lists the images that were disposed of.
-/
namespace Yuzora
namespace Kitty

open Utf16 (Text)

abbrev Control := Table Nat Text
abbrev ByteList := List Nat

def field (control : Control) (key : Char) : Option Text := control.get key.toNat

def MAX_KITTY_BYTES : Nat := 64 * 1024 * 1024

structure KittyImage where
  image : Nat
  width : Int
  height : Int
deriving DecidableEq

structure KittyPlacement where
  imageId : Int
  id : Int
  col : Int
  row : Int
  x : Int
  y : Int
  width : Int
  height : Int
  offsetX : Int
  offsetY : Int
  cols : Int
  rows : Int
  z : Int
deriving DecidableEq

/-- What the terminal answers to a command, and what the platform makes of compressed bytes. -/
structure GraphicsTarget where
  decompress : ByteList → Except String (List ByteList)
  load : ByteList → Int → Int → Int → Except String (Int × Int)
  cursor : Int × Int
  cell : ℚ × ℚ
  advance : Int → Int → Except String Unit

structure Upload where
  control : Control
  parts : List Text
  size : Nat

structure KittyGraphics where
  images : Table Int KittyImage
  placements : Table (Int × Int) KittyPlacement
  upload : Option Upload
  serial : Nat
  disposed : Bool
  loads : Nat
  disposals : List Nat

def KittyGraphics.new : KittyGraphics := ⟨Table.empty, Table.empty, none, 0, false, 0, []⟩

/-! ## Numbers -/

def isDigit (unit : Nat) : Bool := decide (48 ≤ unit ∧ unit ≤ 57)

def digits (text : Text) : Option Nat :=
  if text ≠ [] ∧ text.all isDigit then some (text.foldl (fun n unit => 10 * n + (unit - 48)) 0) else none

/-- `/^-?\d+$/` -/
def parseInteger : Text → Option Int
  | 45 :: rest => (digits rest).map fun n => -(n : Int)
  | text => (digits text).map fun n => (n : Int)

def MAX_SAFE_INTEGER : Nat := 2 ^ 53 - 1

def integer (value : Option Text) (fallback : Int) : Except String Int :=
  match value with
  | none => .ok fallback
  | some text =>
    match parseInteger text with
    | some n => if n.natAbs ≤ MAX_SAFE_INTEGER then .ok n else .error "EINVAL: Invalid graphics integer"
    | none => .error "EINVAL: Invalid graphics integer"

def AUTO_ID_BASE : Int := 2 ^ 32

def clientId (value : Option Text) : Except String Int :=
  (integer value 0).bind fun id => if id < 0 ∨ id ≥ AUTO_ID_BASE then .error "EINVAL: Invalid graphics id" else .ok id

/-! ## Uploads -/

def sextet (unit : Nat) : Option Nat :=
  if 65 ≤ unit ∧ unit ≤ 90 then some (unit - 65)
  else if 97 ≤ unit ∧ unit ≤ 122 then some (unit - 71)
  else if 48 ≤ unit ∧ unit ≤ 57 then some (unit + 4)
  else if unit = 43 then some 62
  else if unit = 47 then some 63
  else none

/-- `/^[A-Za-z0-9+/]*={0,2}$/` -/
def isEncoded (payload : Text) : Bool :=
  let body := (payload.reverse.dropWhile (· == 61)).reverse
  decide (payload.length ≤ body.length + 2) && body.all fun unit => (sextet unit).isSome

def bytesOf : List Nat → ByteList
  | a :: b :: c :: d :: rest => (a * 4 + b / 16) :: (b % 16 * 16 + c / 4) :: (c % 4 * 64 + d) :: bytesOf rest
  | [a, b, c] => [a * 4 + b / 16, b % 16 * 16 + c / 4]
  | [a, b] => [a * 4 + b / 16]
  | _ => []

/-- `atob`, for text without white space. -/
def atob (encoded : Text) : Except String ByteList :=
  let body :=
    if encoded.length % 4 ≠ 0 then encoded
    else if [61, 61] <:+ encoded then encoded.take (encoded.length - 2)
    else if [61] <:+ encoded then encoded.take (encoded.length - 1)
    else encoded
  if body.length % 4 = 1 then .error "InvalidCharacterError"
  else
    match body.mapM sextet with
    | none => .error "InvalidCharacterError"
    | some sextets => .ok (bytesOf sextets)

/-- The loop of `inflate`, over the chunks that come. -/
def inflateLoop (result : ByteList) : List ByteList → Except String ByteList
  | [] => .ok result
  | chunk :: chunks =>
    if result.length + chunk.length > MAX_KITTY_BYTES then .error "EFBIG: Image exceeds memory limit"
    else inflateLoop (result ++ chunk) chunks

variable (target : GraphicsTarget)

variable (bytes : ByteList)

def inflate : Except String ByteList :=
  (target.decompress bytes).bind (inflateLoop [])

structure Picture where
  bytes : ByteList
  width : Int
  height : Int
  format : Int

def PNG_SIGNATURE : ByteList := [137, 80, 78, 71, 13, 10, 26, 10]

/-- `DataView.getUint32` -/
def getUint32 (offset : Nat) : Int :=
  (((bytes.drop offset).take 4).foldl (fun n byte => 256 * n + byte) 0 : Nat)

def readBytes (control : Control) (encoded : Text) : Except String ByteList :=
  if (field control 't').any (fun medium => decide (medium ≠ [] ∧ medium ≠ [100])) then
    .error "ENOTSUP: Only inline image data is supported"
  else
    (atob encoded).bind fun bytes =>
      if field control 'o' = some [122] then inflate target bytes
      else if (field control 'o').any (fun compression => decide (compression ≠ [])) then
        .error "ENOTSUP: Unknown compression"
      else .ok bytes

def readSize (format width height : Int) (bytes : ByteList) : Except String (Int × Int) :=
  if format = 100 then
    if bytes.length < 24 ∨ bytes.take 8 ≠ PNG_SIGNATURE ∨ (bytes.drop 12).take 4 ≠ [73, 72, 68, 82] then
      .error "EINVAL: Invalid PNG"
    else .ok (getUint32 bytes 16, getUint32 bytes 20)
  else if ¬ (format = 24 ∨ format = 32) ∨ (bytes.length : Int) ≠ width * height * (format / 8) then
    .error "EINVAL: Invalid pixel data"
  else .ok (width, height)

def checkSize (format : Int) (size : Int × Int) : Except String Picture :=
  if size.1 < 1 ∨ size.2 < 1 ∨ size.1 > 8192 ∨ size.2 > 8192 ∨ size.1 * size.2 * 4 > MAX_KITTY_BYTES then
    .error "EFBIG: Image dimensions exceed limit"
  else .ok ⟨bytes, size.1, size.2, format⟩

def readPicture (control : Control) (encoded : Text) : Except String Picture :=
  (readBytes target control encoded).bind fun bytes =>
    (integer (field control 'f') 32).bind fun format =>
      (integer (field control 's') 0).bind fun width =>
        (integer (field control 'v') 0).bind fun height =>
          (readSize format width height bytes).bind (checkSize bytes format)

/-! ## Commands -/

inductive Answer
  | ok
  | error (message : String)
deriving DecidableEq

namespace KittyGraphics

variable (self : KittyGraphics)

def fail (message : String) : Option Answer × KittyGraphics :=
  (some (.error message), { self with upload := none })

def numbered (client : Int) : Int × KittyGraphics :=
  if client ≠ 0 then (client, self) else (AUTO_ID_BASE + (self.serial + 1 : Nat), { self with serial := self.serial + 1 })

def imageBytes (image : KittyImage) : Int := image.width * image.height * 4

def memoryBut (id : Int) : Int := ((self.images.erase id).values.map imageBytes).sum

/-- The chunk is taken in; if it is the last one, what there is of the upload. -/
inductive Received
  | failed (message : String)
  | waiting (upload : Upload)
  | complete (control : Control) (encoded : Text)

variable (control : Control)

def receive (payload : Text) : Received :=
  let upload := self.upload.getD ⟨control, [], 0⟩
  let size := upload.size + payload.length
  if size > 4 * ((MAX_KITTY_BYTES + 2) / 3) then .failed "EFBIG: Image exceeds memory limit"
  else if isEncoded payload = false then .failed "EINVAL: Invalid image encoding"
  else
    let parts := if payload.length > 0 then upload.parts ++ [payload] else upload.parts
    if field control 'm' = some [49] then .waiting ⟨upload.control, parts, size⟩
    else .complete upload.control parts.flatten

/-- An upload up to the image that `load` returned. -/
inductive Prepared
  | failed (message : String) (after : KittyGraphics)
  | waiting (upload : Upload)
  | query
  | image (id : Int) (control : Control) (width height : Int) (after : KittyGraphics)

def prepare (target : GraphicsTarget) (action : Text) (control : Control) (payload : Text) :
    Prepared :=
  match self.receive control payload with
  | .failed message => .failed message self
  | .waiting upload => .waiting upload
  | .complete control encoded =>
    match readPicture target control encoded with
    | .error message => .failed message self
    | .ok picture =>
      if action = [113] then .query
      else
        match clientId (field control 'i') with
        | .error message => .failed message self
        | .ok client =>
          let id := (self.numbered client).1
          let after := (self.numbered client).2
          if picture.width * picture.height * 4 + self.memoryBut id > MAX_KITTY_BYTES ∨
              (self.images.contains id = false ∧ self.images.size ≥ 128) then
            .failed "ENOSPC: Image cache is full" after
          else
            match target.load picture.bytes picture.width picture.height picture.format with
            | .error message => .failed message after
            | .ok (width, height) => .image id control width height after

/-- The loaded image takes the place of the one that has its number. -/
def setImage (id width height : Int) : KittyGraphics :=
  { self with
    upload := none
    images := self.images.insert id ⟨self.loads, width, height⟩
    loads := self.loads + 1
    disposals := self.disposals ++ (self.images.get id).toList.map (·.image) }

def readPlacement (target : GraphicsTarget) (imageId id : Int) (image : KittyImage) (control : Control) :
    Except String KittyPlacement :=
  (integer (field control 'x') 0).bind fun x =>
    (integer (field control 'y') 0).bind fun y =>
      (integer (field control 'w') (image.width - x)).bind fun width =>
        (integer (field control 'h') (image.height - y)).bind fun height =>
          (integer (field control 'X') 0).bind fun offsetX =>
            (integer (field control 'Y') 0).bind fun offsetY =>
              (integer (field control 'c') 0).bind fun cols =>
                (integer (field control 'r') 0).bind fun rows =>
                  (integer (field control 'z') 0).bind fun z =>
                    .ok ⟨imageId, id, target.cursor.1, target.cursor.2, x, y, width, height, offsetX, offsetY, cols,
                      rows, z⟩

/-- The source rectangle lies inside the image. -/
structure Inside (placement : KittyPlacement) (w h : Int) : Prop where
  x : 0 ≤ placement.x
  y : 0 ≤ placement.y
  width : 1 ≤ placement.width
  height : 1 ≤ placement.height
  right : placement.x + placement.width ≤ w
  bottom : placement.y + placement.height ≤ h

def isInvalid (placement : KittyPlacement) (image : KittyImage) : Bool :=
  decide (placement.x < 0 ∨ placement.y < 0 ∨ placement.width < 1 ∨ placement.height < 1 ∨
    placement.x + placement.width > image.width ∨ placement.y + placement.height > image.height ∨
    placement.cols < 0 ∨ placement.cols > 1000 ∨ placement.rows < 0 ∨ placement.rows > 1000)

def place (target : GraphicsTarget) (imageId : Int) (control : Control) :
    Except String KittyPlacement × KittyGraphics :=
  match self.images.get imageId with
  | none => (.error "ENOENT: Image not found", self)
  | some image =>
    match clientId (field control 'p') with
    | .error message => (.error message, self)
    | .ok client =>
      let id := (self.numbered client).1
      let after := (self.numbered client).2
      match readPlacement target imageId id image control with
      | .error message => (.error message, after)
      | .ok placement =>
        if isInvalid placement image then (.error "EINVAL: Invalid placement", after)
        else if self.placements.size ≥ 512 ∧ self.placements.contains (imageId, id) = false then
          (.error "ENOSPC: Too many placements", after)
        else (.ok placement, { after with placements := self.placements.insert (imageId, id) placement })

def span (cells : Int) (pixels : Int) (size : ℚ) : Int :=
  if cells ≠ 0 then cells else if size > 0 then ⌈(pixels : ℚ) / size⌉ else 1

def advance (target : GraphicsTarget) (placement : KittyPlacement) (control : Control) : Except String Unit :=
  if field control 'C' = some [49] then .ok ()
  else target.advance (span placement.cols (placement.width + placement.offsetX) target.cell.1)
    (span placement.rows (placement.height + placement.offsetY) target.cell.2)

def acceptPlacement (target : GraphicsTarget) (imageId : Int) (control : Control) :
    Option Answer × KittyGraphics :=
  match self.place target imageId control with
  | (.error message, after) => after.fail message
  | (.ok placement, after) =>
    match advance target placement control with
    | .error message => after.fail message
    | .ok () => (some .ok, after)

def acceptUpload (target : GraphicsTarget) (action : Text) (control : Control) (payload : Text) :
    Option Answer × KittyGraphics :=
  match self.prepare target action control payload with
  | .failed message after => after.fail message
  | .waiting upload => (none, { self with upload := some upload })
  | .query => (some .ok, { self with upload := none })
  | .image id control width height after =>
    if action = [84] then (after.setImage id width height).acceptPlacement target id control
    else (some .ok, after.setImage id width height)

def clearImages : KittyGraphics :=
  { self with images := Table.empty, disposals := self.disposals ++ self.images.values.map (·.image) }

def dropImage (imageId : Int) : KittyGraphics :=
  { self with
    images := self.images.erase imageId
    disposals := self.disposals ++ (self.images.get imageId).toList.map (·.image) }

def isDeleted (mode : Text) (imageId placementId : Int) (placement : KittyPlacement) : Bool :=
  decide (mode = [97] ∨ mode = [65] ∨
    (placement.imageId = imageId ∧ (placementId = 0 ∨ placement.id = placementId)))

def acceptDeletion : Option Answer × KittyGraphics :=
  let mode := (field control 'd').getD [97]
  match integer (field control 'i') 0, integer (field control 'p') 0 with
  | .error message, _ => self.fail message
  | _, .error message => self.fail message
  | .ok imageId, .ok placementId =>
    if ¬ (mode = [97] ∨ mode = [65] ∨ mode = [105] ∨ mode = [73]) then self.fail "ENOTSUP: Unsupported deletion"
    else
      let kept :=
        { self with placements := self.placements.retain fun _ placement => !isDeleted mode imageId placementId placement }
      if mode = [65] then (some .ok, kept.clearImages)
      else if mode = [73] ∧ kept.placements.values.any (fun placement => placement.imageId == imageId) = false then
        (some .ok, kept.dropImage imageId)
      else (some .ok, kept)

def actionOf : Text :=
  ((field control 'a').or (self.upload.bind fun upload => field upload.control 'a')).getD [116]

/-- `KittyGraphics.accept`: the answer, if there is one, and the state after it. -/
def accept (target : GraphicsTarget) (control : Control) (payload : Text) :
    Option Answer × KittyGraphics :=
  if self.disposed then (none, self)
  else if self.actionOf control = [116] ∨ self.actionOf control = [84] ∨ self.actionOf control = [113] then
    self.acceptUpload target (self.actionOf control) control payload
  else if self.actionOf control = [112] then
    match integer (field control 'i') 0 with
    | .error message => self.fail message
    | .ok imageId => self.acceptPlacement target imageId control
  else if self.actionOf control = [100] then self.acceptDeletion control
  else self.fail "ENOTSUP: Unsupported graphics command"

def clear : KittyGraphics :=
  { self with upload := none, placements := Table.empty }.clearImages

def dispose : KittyGraphics := { self with disposed := true }.clear

end KittyGraphics
end Kitty
end Yuzora
