namespace Packed

variable {w : Nat} {mask tag value word other : BitVec w}

theorem join (mask word : BitVec w) : word &&& mask ||| word &&& ~~~mask = word := by
  rw [← BitVec.and_or_distrib_left, BitVec.or_not_self, BitVec.and_allOnes]

theorem eq_iff :
    word = other ↔ word &&& mask = other &&& mask ∧ word &&& ~~~mask = other &&& ~~~mask := by
  constructor
  · rintro rfl
    exact ⟨rfl, rfl⟩
  · rintro ⟨tags, values⟩
    rw [← join mask word, ← join mask other, tags, values]

theorem and_not (clear : value &&& mask = 0) : value &&& ~~~mask = value := by
  have joined := join mask value
  simpa [clear] using joined

theorem tag_or (within : tag &&& mask = tag) (clear : value &&& mask = 0) :
    (value ||| tag) &&& mask = tag := by
  simp [BitVec.and_or_distrib_right, clear, within]

theorem value_or (within : tag &&& mask = tag) (clear : value &&& mask = 0) :
    (value ||| tag) &&& ~~~mask = value := by
  have outside : tag &&& ~~~mask = 0 := by
    rw [← within, BitVec.and_assoc, BitVec.and_not_self]
    simp
  simp [BitVec.and_or_distrib_right, and_not clear, outside]

end Packed
