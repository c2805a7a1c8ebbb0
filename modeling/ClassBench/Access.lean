/-! Access flags of classes, fields and methods: a 16-bit word with one meaning for each bit. -/

namespace ClassBench.Access

/-- Visible everywhere. -/
def isPublic : UInt16 := 0x0001

/-- Visible in its class only. -/
def isPrivate : UInt16 := 0x0002

/-- Visible to heirs. -/
def isProtected : UInt16 := 0x0004

/-- Belongs to the class and not to an instance. -/
def isStatic : UInt16 := 0x0008

/-- Is never overridden, extended or assigned again. -/
def isFinal : UInt16 := 0x0010

/-- Calls to methods of the super class are looked up from it. -/
def callsSuper : UInt16 := 0x0020

/-- Has a body outside the class file. -/
def isNative : UInt16 := 0x0100

/-- An interface. -/
def isInterface : UInt16 := 0x0200

/-- Has no body, or is never instantiated. -/
def isAbstract : UInt16 := 0x0400

/-- Stands in no source. -/
def isSynthetic : UInt16 := 0x1000

/-- An enumeration. -/
def isEnum : UInt16 := 0x4000

/-- Whether `flags` has a bit in common with `mask`. -/
def has (flags mask : UInt16) : Bool := flags &&& mask != 0

/-- Flags have a bit of two masks exactly if they have a bit of one of them. -/
theorem has_or (flags first second : UInt16) :
    has flags (first ||| second) = (has flags first || has flags second) := by
  have split : flags &&& (first ||| second) = flags &&& first ||| flags &&& second := by
    apply UInt16.toNat_inj.mp
    simp only [UInt16.toNat_and, UInt16.toNat_or, Nat.and_or_distrib_left]
  rw [Bool.eq_iff_iff, has, split]
  simp only [has, bne_iff_ne, ne_eq, UInt16.or_eq_zero_iff, Bool.or_eq_true]
  exact Decidable.not_and_iff_or_not

/-- The flags that are written as words, in the order of the words. -/
def words : List (UInt16 × String) :=
  [(isPublic, "public"), (isPrivate, "private"), (isProtected, "protected"), (isStatic, "static"),
    (isFinal, "final"), (isNative, "native"), (isAbstract, "abstract"),
    (isSynthetic, "synthetic"), (isEnum, "enum")]

/-- The words for flags. -/
def keywords (flags : UInt16) : List String :=
  (words.filter fun (mask, _) => has flags mask).map Prod.snd

end ClassBench.Access
