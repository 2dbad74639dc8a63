namespace KeyedBreaker

@[default_instance 20000]
instance (priority := 2000) powNat : Pow Nat Nat := instPowNat

@[default_instance 15000]
instance (priority := 2000) powInt : Pow Int Nat := instPowNat

instance (priority := 2000) zeroNat : Zero Nat := ⟨0⟩

instance (priority := 2000) decidableEqByteArray : DecidableEq ByteArray := ByteArray.instDecidableEq

end KeyedBreaker
