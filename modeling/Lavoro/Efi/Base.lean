/-!
# Firmware types

The fixed-width types and status codes of the firmware interface that the program
uses: `EFI_STATUS` with its error bit, `CHAR16` strings and byte buffers.
-/

namespace Lavoro

/-- `EFI_STATUS`. -/
abbrev EfiStatus := BitVec 64

/-- `EFI_ERROR(a)`: `((INTN) a) < 0`. -/
def efiError (status : EfiStatus) : Bool := status.msb

/-- `EFIERR(a)`: the code with the top bit set. -/
def efiErr (code : Nat) : EfiStatus := 0x8000000000000000#64 ||| BitVec.ofNat 64 code

def efiSuccess : EfiStatus := 0
def efiBufferTooSmall : EfiStatus := efiErr 5
def efiDeviceError : EfiStatus := efiErr 7
def efiAccessDenied : EfiStatus := efiErr 15
def efiNoMapping : EfiStatus := efiErr 17
def efiConnectionFin : EfiStatus := efiErr 104

@[simp] theorem efiError_success : efiError efiSuccess = false := rfl

/-- A string of `CHAR16` units, without its terminating NUL. -/
abbrev Str16 := List UInt16

/-- The conversion of an `int` to `unsigned char`. -/
def toByte (c : Int) : UInt8 := UInt8.ofNat (c % 256).toNat

@[simp] theorem toByte_ofNat (b : UInt8) : toByte (b.toNat : Int) = b := by
  have lt := b.toNat_lt
  have low : ((b.toNat : Int) % 256).toNat = b.toNat := by omega
  rw [toByte, low, UInt8.ofNat_toNat]

/-- `unsigned char buffer[n]`. -/
abbrev Buffer (n : Nat) := Fin n → UInt8

namespace Buffer

variable {n : Nat}

/-- `buffer[i]`. -/
def get (b : Buffer n) (i : Nat) : UInt8 := if h : i < n then b ⟨i, h⟩ else 0

/-- The buffer after a callee has stored `bytes` at its start. -/
def store (b : Buffer n) (bytes : List UInt8) : Buffer n := fun i => bytes.getD i (b i)

theorem get_store_of_lt {b : Buffer n} {bytes : List UInt8} {i : Nat} (h : i < bytes.length)
    (room : bytes.length ≤ n) : (b.store bytes).get i = bytes[i] := by
  simp [get, store, Nat.lt_of_lt_of_le h room, h]

theorem get_store_of_ge {b : Buffer n} {bytes : List UInt8} {i : Nat} (h : bytes.length ≤ i) :
    (b.store bytes).get i = b.get i := by
  by_cases inside : i < n <;> simp [get, store, inside, h]

@[simp] theorem store_nil (b : Buffer n) : b.store [] = b := rfl

end Buffer

end Lavoro
