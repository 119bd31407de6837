import Chipscopy.Xvc.Commands

/-! Command streams of an XVC server

    Commands that are sent one after the other are read back one after the other, as long as each
    field that the server takes with one call of `recv` has arrived as a whole. -/

namespace Chipscopy.Xvc

open Stream Bits

variable {cut : ℕ → ℕ}

/-! ### Numbers -/

theorem land_seven {r : ℕ} (hr : r < 128) : r &&& 0x80 = 0 ∧ (r ||| 0x80) &&& 0x80 ≠ 0 ∧
    (r ||| 0x80) &&& 0x7F = r ∧ r ||| 0x80 < 256 := by
  have hall : ∀ r : Fin 128, (r : ℕ) &&& 0x80 = 0 ∧ ((r : ℕ) ||| 0x80) &&& 0x80 ≠ 0 ∧
      ((r : ℕ) ||| 0x80) &&& 0x7F = r ∧ (r : ℕ) ||| 0x80 < 256 := by decide
  exact hall ⟨r, hr⟩

/-- The lowest seven bits and the others make the number. -/
theorem lor_shiftRight_seven (value b : ℕ) :
    ((value &&& 0x7F) <<< b) ||| ((value >>> 7) <<< (b + 7)) = value <<< b := by
  have hparts : (value &&& 0x7F) ||| ((value >>> 7) <<< 7) = value := by
    have hlow : value &&& 0x7F = value % 2 ^ 7 := Nat.and_two_pow_sub_one_eq_mod value 7
    have hadd := Nat.shiftLeft_add_eq_or_of_lt (Nat.mod_lt value (Nat.two_pow_pos 7)) (value >>> 7)
    rw [hlow, Nat.lor_comm, ← hadd, Nat.shiftLeft_eq, Nat.shiftRight_eq_div_pow]
    omega
  rw [Nat.add_comm b 7, Nat.shiftLeft_add, ← Nat.shiftLeft_or_distrib, hparts]

theorem getUleb128Loop_write (hcut : ∀ k, 0 < cut k) (rest : List UInt8) : ∀ (value : ℕ),
    0 < value → ∀ acc b, getUleb128Loop cut acc b (writeUleb128Loop value ++ rest) =
      some (acc ||| (value <<< b), rest) := by
  intro value
  induction value using Nat.strong_induction_on with
  | h value ih =>
    rintro hpos acc b
    have hlow : value &&& 0x7F < 128 := by
      rw [show value &&& 0x7F = value % 2 ^ 7 from Nat.and_two_pow_sub_one_eq_mod value 7]
      exact Nat.mod_lt value (Nat.two_pow_pos 7)
    obtain ⟨hend, hmore, hseven, hbyte⟩ := land_seven hlow
    rw [writeUleb128Loop, if_neg hpos.ne']
    by_cases hbig : value ≥ 0x80
    · simp only [if_pos hbig]
      have hnat : (UInt8.ofNat ((value &&& 0x7F) ||| 0x80)).toNat = (value &&& 0x7F) ||| 0x80 := by
        rw [UInt8.toNat_ofNat', Nat.mod_eq_of_lt hbyte]
      have hrest : 0 < value >>> 7 := by
        rw [Nat.shiftRight_eq_div_pow]
        omega
      have hless : value >>> 7 < value := by
        rw [Nat.shiftRight_eq_div_pow]
        omega
      rw [List.cons_append, getUleb128Loop_some (recv_one hcut _ _), List.headD_cons, hnat,
        if_neg hmore, hseven, ih _ hless hrest, Nat.lor_assoc, lor_shiftRight_seven]
    · simp only [if_neg hbig]
      have hsame : value &&& 0x7F = value := by
        rw [show value &&& 0x7F = value % 2 ^ 7 from Nat.and_two_pow_sub_one_eq_mod value 7]
        omega
      have hnat : (UInt8.ofNat value).toNat = value := by
        rw [UInt8.toNat_ofNat', Nat.mod_eq_of_lt (by omega)]
      have hzero : value >>> 7 = 0 := by
        rw [Nat.shiftRight_eq_div_pow]
        omega
      rw [hsame] at hend ⊢
      rw [hzero, writeUleb128Loop, if_pos rfl, List.cons_append, List.nil_append,
        getUleb128Loop_some (recv_one hcut _ _), List.headD_cons, hnat, if_pos hend, hsame]

theorem getUleb128_write (hcut : ∀ k, 0 < cut k) (value : ℕ) (rest : List UInt8) :
    getUleb128 cut (writeUleb128 value ++ rest) = some (value, rest) := by
  rw [getUleb128, writeUleb128]
  split_ifs with hzero
  · rw [hzero, List.cons_append, List.nil_append, getUleb128Loop_some (recv_one hcut _ _)]
    rfl
  · rw [getUleb128Loop_write hcut rest value (Nat.pos_of_ne_zero hzero), Nat.zero_or,
      Nat.shiftLeft_zero]

theorem length_writeUleb128Loop {value k : ℕ} (h : value < 2 ^ (7 * k)) :
    (writeUleb128Loop value).length ≤ k := by
  induction k generalizing value with
  | zero =>
    obtain rfl : value = 0 := by omega
    rw [writeUleb128Loop, if_pos rfl, List.length_nil]
  | succ k ih =>
    rw [writeUleb128Loop]
    by_cases hzero : value = 0
    · rw [if_pos hzero]
      exact Nat.zero_le _
    · rw [if_neg hzero]
      refine Nat.succ_le_succ (ih ?_)
      rw [Nat.shiftRight_eq_div_pow, Nat.div_lt_iff_lt_mul (Nat.two_pow_pos 7), ← Nat.pow_add]
      exact h

theorem length_writeUleb128 {value k : ℕ} (hk : 0 < k) (h : value < 2 ^ (7 * k)) :
    (writeUleb128 value).length ≤ k := by
  rw [writeUleb128]
  split_ifs
  · exact hk
  · exact length_writeUleb128Loop h

/-- A number that is read has at most seven bits for each byte that was taken. -/
theorem getUleb128Loop_lt {acc b value : ℕ} {sock rest : List UInt8} (hacc : acc < 2 ^ b)
    (h : getUleb128Loop cut acc b sock = some (value, rest)) :
    rest.length < sock.length ∧ value < 2 ^ (b + 7 * (sock.length - rest.length)) := by
  induction hn : sock.length using Nat.strong_induction_on generalizing acc b sock with
  | h n ih =>
    rcases hrecv : recv cut 1 sock with _ | ⟨c, tail⟩
    · rw [getUleb128Loop_none hrecv] at h
      cases h
    · obtain ⟨hne, rfl, -⟩ := recv_eq_some hrecv
      have hpos := List.length_pos_iff.mpr hne
      have hseven : (c.headD 0).toNat &&& 0x7F < 2 ^ 7 := by
        rw [show (c.headD 0).toNat &&& 0x7F = (c.headD 0).toNat % 2 ^ 7 from
          Nat.and_two_pow_sub_one_eq_mod _ 7]
        exact Nat.mod_lt _ (Nat.two_pow_pos 7)
      have hgroup : acc ||| (((c.headD 0).toNat &&& 0x7F) <<< b) < 2 ^ (b + 7) := by
        refine Nat.or_lt_two_pow ?_ ?_
        · exact hacc.trans_le (Nat.pow_le_pow_right Nat.two_pos (Nat.le_add_right b 7))
        · rw [Nat.shiftLeft_eq, Nat.add_comm, Nat.pow_add]
          exact Nat.mul_lt_mul_of_pos_right hseven (Nat.two_pow_pos b)
      rw [List.length_append] at hn
      rw [getUleb128Loop_some hrecv] at h
      split_ifs at h
      · obtain ⟨rfl, rfl⟩ := Prod.mk.inj (Option.some.inj h)
        refine ⟨by omega, hgroup.trans_le (Nat.pow_le_pow_right Nat.two_pos (by omega))⟩
      · obtain ⟨hlen, hlt⟩ := ih tail.length (by omega) hgroup h rfl
        refine ⟨by omega, hlt.trans_le (Nat.pow_le_pow_right Nat.two_pos (by omega))⟩

/-- A number is read back with exactly its bytes, and no other bytes for it are fewer. -/
theorem getUleb128_roundtrip (hcut : ∀ k, 0 < cut k) (value : ℕ) (rest : List UInt8) :
    getUleb128 cut (writeUleb128 value ++ rest) = some (value, rest) ∧
      ∀ bytes rest', getUleb128 cut (bytes ++ rest') = some (value, rest') →
        (writeUleb128 value).length ≤ bytes.length := by
  refine ⟨getUleb128_write hcut value rest, fun bytes rest' h => ?_⟩
  obtain ⟨hlen, hlt⟩ := getUleb128Loop_lt Nat.one_pos h
  rw [List.length_append] at hlen
  rw [List.length_append, Nat.zero_add, Nat.add_sub_cancel] at hlt
  exact length_writeUleb128 (by omega) hlt

/-- Seven hundred has two bytes, also for a socket that hands out one byte at a time. -/
theorem getUleb128_roundtrip_bytewise :
    getUleb128 (fun _ => 1) ([0xBC, 0x05] ++ [7]) = some (700, [7]) ∧
      ∀ bytes rest', getUleb128 (fun _ => 1) (bytes ++ rest') = some (700, rest') →
        2 ≤ bytes.length := by
  have hbytes : writeUleb128 700 = [0xBC, 0x05] := by
    simp [writeUleb128, writeUleb128Loop]
  have hcut : ∀ k : ℕ, 0 < (fun _ : ℕ => 1) k := fun _ => Nat.one_pos
  have h := getUleb128_roundtrip hcut 700 [7]
  rw [hbytes] at h
  exact h

theorem foldl_reverse (bs : List UInt8) :
    bs.reverse.foldl (fun value byte => (value <<< 8) ||| byte.toNat) 0 = fromBytes bs := by
  induction bs with
  | nil => rfl
  | cons b bs ih =>
    have hadd := Nat.shiftLeft_add_eq_or_of_lt (show b.toNat < 2 ^ 8 from b.toNat_lt) (fromBytes bs)
    rw [List.reverse_cons, List.foldl_append, ih, List.foldl_cons, List.foldl_nil, ← hadd,
      fromBytes, Nat.shiftLeft_eq]
    omega

theorem getUintLe_four {period : ℕ} (hperiod : period < 2 ^ 32) (rest : List UInt8)
    (h : 4 ≤ cut (4 + rest.length)) :
    getUintLe cut 4 (littleEndian 4 period ++ rest) = some (period, rest) := by
  have hlen := length_littleEndian 4 period
  have hne : littleEndian 4 period ≠ [] := by
    rw [← List.length_pos_iff, hlen]
    omega
  have hrecv : recv cut (littleEndian 4 period).length (littleEndian 4 period ++ rest) = _ :=
    recv_whole hne rest (by rwa [hlen])
  rw [hlen] at hrecv
  rw [getUintLe, bind_of_some hrecv, List.take_of_length_le hlen.le, foldl_reverse,
    fromBytes_littleEndian, Nat.mod_eq_of_lt (by norm_num; omega)]
  rfl

theorem vectorLength_eq {numBits : ℕ} (h : numBits < 2 ^ 32) :
    vectorLength numBits = (numBits + 7) / 8 := by
  have hdiv := Py.trueDiv_two_pow (show numBits + 7 < 2 ^ 53 by omega) (show 3 ≤ 52 by omega)
  delta vectorLength
  simp only [hdiv, Py.truncate_div_two_pow, Int.toNat_natCast]
  rfl

/-! ### Commands as bytes -/

namespace Command

def name : Command → List Char
  | mwr .. => ['m', 'w', 'r']
  | mrd .. => ['m', 'r', 'd']
  | stop => ['s', 't', 'o', 'p']
  | getinfo => ['g', 'e', 't', 'i', 'n', 'f', 'o']
  | capabilities => ['c', 'a', 'p', 'a', 'b', 'i', 'l', 'i', 't', 'i', 'e', 's']
  | configure .. => ['c', 'o', 'n', 'f', 'i', 'g', 'u', 'r', 'e']
  | settck .. => ['s', 'e', 't', 't', 'c', 'k']
  | shift .. => ['s', 'h', 'i', 'f', 't']
  | error => ['e', 'r', 'r', 'o', 'r']

/-- The fields in the documented format. -/
def fields : Command → List UInt8
  | mwr flags addr payload =>
    writeUleb128 flags ++ (writeUleb128 addr ++ (writeUleb128 payload.length ++ payload))
  | mrd flags addr numBytes =>
    writeUleb128 flags ++ (writeUleb128 addr ++ writeUleb128 numBytes)
  | configure configs => writeUleb128 configs.length ++ configs
  | settck period => littleEndian 4 period
  | shift numBits tms tdi => littleEndian 4 numBits ++ (tms ++ tdi)
  | _ => []

def bytes (c : Command) : List UInt8 := ascii c.name ++ (ascii [':'] ++ c.fields)

/-- Periods and bit counts have four bytes, and the vectors one bit for each clock. -/
def WellFormed : Command → Prop
  | settck period => period < 2 ^ 32
  | shift numBits tms tdi =>
    numBits < 2 ^ 32 ∧ tms.length = (numBits + 7) / 8 ∧ tdi.length = (numBits + 7) / 8
  | _ => True

/-- The fields after the numbers in ULEB128 arrive as a whole, with so many bytes to follow. -/
def Whole (cut : ℕ → ℕ) : Command → ℕ → Prop
  | mwr _ _ payload, left => payload ≠ [] ∧ payload.length ≤ cut (payload.length + left)
  | configure _, _ => False
  | settck _, left => 4 ≤ cut (4 + left)
  | shift _ tms tdi, left => 4 ≤ cut (4 + (tms.length + tdi.length + left)) ∧
    (tms ≠ [] ∧ tms.length ≤ cut (tms.length + (tdi.length + left))) ∧
    (tdi ≠ [] ∧ tdi.length ≤ cut (tdi.length + left))
  | _, _ => True

end Command

theorem getCmd_append (hcut : ∀ k, 0 < cut k) (rest : List UInt8) : ∀ (name acc : List UInt8),
    (∀ b ∈ name, [b] ≠ ascii [':']) →
    getCmd cut acc (name ++ (ascii [':'] ++ rest)) = some (acc ++ name, rest) := by
  intro name
  induction name with
  | nil =>
    rintro acc -
    rw [List.nil_append, show ascii [':'] ++ rest = UInt8.ofNat ':'.toNat :: rest from rfl,
      getCmd_some (recv_one hcut _ _), if_pos (show [_] = ascii [':'] from rfl), List.append_nil]
  | cons b name ih =>
    rintro acc hname
    rw [List.cons_append, getCmd_some (recv_one hcut _ _), if_neg (hname b List.mem_cons_self),
      ih _ fun b hb => hname b (List.mem_cons_of_mem _ hb), List.append_assoc,
      List.singleton_append]

theorem getCmd_bytes (hcut : ∀ k, 0 < cut k) (c : Command) (rest : List UInt8) :
    getCmd cut [] (c.bytes ++ rest) = some (ascii c.name, c.fields ++ rest) := by
  rw [Command.bytes, List.append_assoc, List.append_assoc, getCmd_append hcut _ _ _ ?_,
    List.nil_append]
  cases c <;> simp [Command.name, ascii]

theorem name_ne_nil (c : Command) : ascii c.name ≠ [] := by
  cases c <;> exact List.cons_ne_nil _ _

/-- The reader of a command's fields, if the table has one. -/
def Command.reader (cut : ℕ → ℕ) : Command → Option (Reader Command)
  | mwr .. => some (mwrArguments cut)
  | mrd .. => some (mrdArguments cut)
  | configure .. => none
  | settck .. => some (settckArguments cut)
  | shift .. => some (shiftArguments cut)
  | c => some (pure c)

theorem lookup_dispatch (cut : ℕ → ℕ) (c : Command) :
    Py.lookup (ascii c.name) (dispatch cut) = c.reader cut := by
  cases c <;> rfl

/-! ### Commands read back -/

/-- A command that has arrived is read back, with all of its bytes. -/
theorem reader_whole (hcut : ∀ k, 0 < cut k) {c : Command} (hwf : c.WellFormed)
    (rest : List UInt8) (hwhole : c.Whole cut rest.length) :
    ∃ x, c.reader cut = some x ∧ x (c.fields ++ rest) = some (c, rest) := by
  cases c with
  | mwr flags addr payload =>
    refine ⟨_, rfl, ?_⟩
    simp only [Command.fields, mwrArguments, List.append_assoc]
    rw [bind_of_some (getUleb128_write hcut _ _), bind_of_some (getUleb128_write hcut _ _),
      bind_of_some (getUleb128_write hcut _ _), bind_of_some (recv_whole hwhole.1 _ hwhole.2)]
    rfl
  | mrd flags addr numBytes =>
    refine ⟨_, rfl, ?_⟩
    simp only [Command.fields, mrdArguments, List.append_assoc]
    rw [bind_of_some (getUleb128_write hcut _ _), bind_of_some (getUleb128_write hcut _ _),
      bind_of_some (getUleb128_write hcut _ _)]
    rfl
  | configure configs => exact hwhole.elim
  | settck period =>
    refine ⟨_, rfl, ?_⟩
    simp only [Command.fields, settckArguments]
    rw [bind_of_some (getUintLe_four hwf rest hwhole)]
    rfl
  | shift numBits tms tdi =>
    obtain ⟨hbits, htms, htdi⟩ := hwf
    obtain ⟨hfour, ⟨htmsne, htmscut⟩, htdine, htdicut⟩ := hwhole
    have hlen : vectorLength numBits = tms.length := by rw [vectorLength_eq hbits, htms]
    have hlen' : tms.length = tdi.length := htms.trans htdi.symm
    refine ⟨_, rfl, ?_⟩
    simp only [Command.fields, shiftArguments, List.append_assoc]
    rw [bind_of_some (getUintLe_four hbits _ (by
        rwa [List.length_append, List.length_append, ← Nat.add_assoc tms.length])),
      hlen, bind_of_some (recv_whole htmsne _ (by rwa [List.length_append])), hlen',
      bind_of_some (recv_whole htdine _ htdicut)]
    rfl
  | stop => exact ⟨_, rfl, rfl⟩
  | getinfo => exact ⟨_, rfl, rfl⟩
  | capabilities => exact ⟨_, rfl, rfl⟩
  | error => exact ⟨_, rfl, rfl⟩

/-- Only then it is. -/
theorem whole_of_reader (hcut : ∀ k, 0 < cut k) {c : Command} (hwf : c.WellFormed)
    {rest rest' : List UInt8} (hlen : rest'.length = rest.length) {x : Reader Command}
    (hx : c.reader cut = some x) (h : x (c.fields ++ rest) = some (c, rest')) :
    c.Whole cut rest.length := by
  cases c with
  | mwr flags addr payload =>
    obtain rfl := Option.some.inj hx
    simp only [Command.fields, mwrArguments, List.append_assoc] at h
    rw [bind_of_some (getUleb128_write hcut _ _), bind_of_some (getUleb128_write hcut _ _),
      bind_of_some (getUleb128_write hcut _ _)] at h
    obtain ⟨payload', left, hrecv, hpure⟩ := bind_eq_some h
    obtain ⟨hne, -, -, hcutle⟩ := recv_eq_some hrecv
    obtain ⟨hcommand, -⟩ := Prod.mk.inj (Option.some.inj hpure)
    obtain ⟨-, -, rfl⟩ := Command.mwr.inj hcommand
    rw [List.length_append] at hcutle
    exact ⟨hne, hcutle⟩
  | configure configs => cases hx
  | settck period =>
    obtain rfl := Option.some.inj hx
    simp only [Command.fields, settckArguments, getUintLe] at h
    obtain ⟨value, left, hvalue, hpure⟩ := bind_eq_some h
    obtain ⟨buf, left', hrecv, hpure'⟩ := bind_eq_some hvalue
    obtain ⟨-, rfl⟩ := Prod.mk.inj (Option.some.inj hpure)
    obtain ⟨-, rfl⟩ := Prod.mk.inj (Option.some.inj hpure')
    obtain ⟨-, hsock, -, hcutle⟩ := recv_eq_some hrecv
    have hsum := congrArg List.length hsock
    rw [List.length_append, List.length_append, length_littleEndian] at hsum
    rw [List.length_append, length_littleEndian] at hcutle
    simp only [Command.Whole]
    omega
  | shift numBits tms tdi =>
    obtain rfl := Option.some.inj hx
    simp only [Command.fields, shiftArguments, getUintLe] at h
    obtain ⟨value, sock, hvalue, h⟩ := bind_eq_some h
    obtain ⟨buf, sock', hrecv, hpure⟩ := bind_eq_some hvalue
    obtain ⟨-, rfl⟩ := Prod.mk.inj (Option.some.inj hpure)
    obtain ⟨tms', sock'', htms, h⟩ := bind_eq_some h
    obtain ⟨tdi', sock₃, htdi, hpure'⟩ := bind_eq_some h
    obtain ⟨hcommand, rfl⟩ := Prod.mk.inj (Option.some.inj hpure')
    obtain ⟨-, rfl, rfl⟩ := Command.shift.inj hcommand
    obtain ⟨-, hsock, -, hbufcut⟩ := recv_eq_some hrecv
    obtain ⟨htmsne, rfl, -, htmscut⟩ := recv_eq_some htms
    obtain ⟨htdine, rfl, -, htdicut⟩ := recv_eq_some htdi
    have hsum := congrArg List.length hsock
    simp only [List.length_append, length_littleEndian] at hsum hbufcut htmscut htdicut
    have hbuf : buf.length = 4 := by omega
    rw [hbuf] at hbufcut
    rw [hlen] at htmscut htdicut
    refine ⟨?_, ⟨htmsne, htmscut⟩, htdine, htdicut⟩
    rwa [Nat.add_assoc 4] at hbufcut
  | mrd flags addr numBytes => trivial
  | stop => trivial
  | getinfo => trivial
  | capabilities => trivial
  | error => trivial

/-! ### Streams of commands -/

variable {σ : Type} {methods : Methods σ} {server : Server σ}

theorem process_of_reader {c : Command} {x : Reader Command} (hx : c.reader cut = some x)
    {sock rest : List UInt8} {c' : Command} (h : x sock = some (c', rest)) :
    process cut methods server (ascii c.name) sock =
      some ((some c', execute methods server c'), rest) := by
  simp only [process, lookup_dispatch, hx]
  rw [bind_of_some h]
  rfl

theorem process_eq_some {c c' : Command} {server' : Server σ} {sock rest : List UInt8}
    (h : process cut methods server (ascii c.name) sock = some ((some c', server'), rest)) :
    ∃ x, c.reader cut = some x ∧ x sock = some (c', rest) := by
  rcases hx : c.reader cut with _ | x
  · simp only [process, lookup_dispatch, hx] at h
    split_ifs at h
    cases h
  · simp only [process, lookup_dispatch, hx] at h
    obtain ⟨c'', rest', hread, hpure⟩ := bind_eq_some h
    obtain ⟨hout, rfl⟩ := Prod.mk.inj (Option.some.inj hpure)
    obtain ⟨hc, -⟩ := Prod.mk.inj hout
    obtain rfl := Option.some.inj hc
    exact ⟨x, rfl, hread⟩

theorem serve_stopped (h : server.running = false) (sock : List UInt8) :
    serve cut methods server sock = (server, []) := by
  rw [serve, h]
  rfl

theorem serve_nil (server : Server σ) : serve cut methods server [] = (server, []) := by
  have hcmd : getCmd cut [] [] = none := getCmd_none (recv_nil 1)
  rw [serve]
  split_ifs
  · split
    · rfl
    next cmd rest h => cases h.symm.trans hcmd
  · rfl

/-- A command that is read goes to the log with its bytes. -/
theorem serve_command (hcut : ∀ k, 0 < cut k) (hrunning : server.running) {c : Command}
    (hwf : c.WellFormed) (rest : List UInt8) (hwhole : c.Whole cut rest.length) :
    serve cut methods server (c.bytes ++ rest) =
      ((serve cut methods (execute methods server c) rest).1,
        { command := some c, consumed := c.bytes.length } ::
          (serve cut methods (execute methods server c) rest).2) := by
  obtain ⟨x, hx, hread⟩ := reader_whole hcut hwf rest hwhole
  have hprocess : process cut methods server (ascii c.name) (c.fields ++ rest) =
      some ((some c, execute methods server c), rest) := process_of_reader hx hread
  rw [serve, if_pos hrunning]
  split
  next hcmd => cases hcmd.symm.trans (getCmd_bytes hcut c rest)
  next cmd left hcmd =>
    obtain ⟨rfl, rfl⟩ := Prod.mk.inj (Option.some.inj (hcmd.symm.trans (getCmd_bytes hcut c rest)))
    rw [if_neg (name_ne_nil c)]
    split
    next h => cases h.symm.trans hprocess
    next command server' left' h =>
      obtain ⟨hout, rfl⟩ := Prod.mk.inj (Option.some.inj (h.symm.trans hprocess))
      obtain ⟨rfl, rfl⟩ := Prod.mk.inj hout
      rw [List.length_append, Nat.add_sub_cancel]

/-- A command that is logged with its bytes was read as a whole. -/
theorem whole_of_serve (hcut : ∀ k, 0 < cut k) {c : Command} (hwf : c.WellFormed)
    (rest : List UInt8) {log : List Executed}
    (h : (serve cut methods server (c.bytes ++ rest)).2 =
      { command := some c, consumed := c.bytes.length } :: log) : c.Whole cut rest.length := by
  rw [serve] at h
  split_ifs at h
  split at h
  next hcmd => cases hcmd.symm.trans (getCmd_bytes hcut c rest)
  next cmd left hcmd =>
    obtain ⟨rfl, rfl⟩ := Prod.mk.inj (Option.some.inj (hcmd.symm.trans (getCmd_bytes hcut c rest)))
    rw [if_neg (name_ne_nil c)] at h
    split at h
    · cases h
    next command server' left' hprocess =>
      obtain ⟨hentry, -⟩ := List.cons.inj h
      obtain ⟨rfl, hconsumed⟩ := Executed.mk.inj hentry
      obtain ⟨x, hx, hread⟩ := process_eq_some hprocess
      have hle := shrinks_process cut methods server (ascii c.name) _ _ _ hprocess
      have hpos : 0 < (ascii c.name).length := List.length_pos_iff.mpr (name_ne_nil c)
      refine whole_of_reader hcut hwf ?_ hx hread
      rw [List.length_append] at hconsumed hle
      rw [Command.bytes, List.length_append, List.length_append] at hconsumed
      omega

/-- All commands in a row, as one would execute them without a socket. -/
def executeAll (methods : Methods σ) : Server σ → List Command → Server σ :=
  List.foldl (execute methods)

/-- The server executes what was sent, each command from its own bytes. -/
def Faithful (cut : ℕ → ℕ) (methods : Methods σ) (server : Server σ) (cs : List Command) : Prop :=
  serve cut methods server (cs.flatMap Command.bytes) =
    (executeAll methods server cs,
      cs.map fun c => { command := some c, consumed := c.bytes.length })

/-- Each command arrives as a whole, and `stop` is the last one. -/
def Delivered (cut : ℕ → ℕ) : List Command → Prop
  | [] => True
  | c :: cs => c.Whole cut (cs.flatMap Command.bytes).length ∧ (c = .stop → cs = []) ∧
    Delivered cut cs

theorem running_execute {c : Command} (h : c ≠ .stop) (server : Server σ) :
    (execute methods server c).running = server.running := by
  cases c with
  | stop => exact absurd rfl h
  | mwr flags addr payload =>
    simp only [execute]
    split_ifs
    · rcases methods.writeMem server.handler flags addr payload with ⟨handler, _ | e⟩ <;> rfl
    · rcases methods.writeMem server.handler flags addr payload with ⟨handler, _ | e⟩ <;> rfl
  | mrd flags addr numBytes =>
    simp only [execute]
    split_ifs
    · rcases methods.readMem server.handler flags addr numBytes with ⟨handler, e | data⟩ <;> rfl
    · rfl
  | _ => rfl

theorem faithful_iff (hcut : ∀ k, 0 < cut k) (methods : Methods σ) (hrunning : server.running)
    {cs : List Command} (hwf : ∀ c ∈ cs, c.WellFormed) :
    Faithful cut methods server cs ↔ Delivered cut cs := by
  induction cs generalizing server with
  | nil => exact iff_of_true (serve_nil server) trivial
  | cons c cs ih =>
    have hc := hwf c List.mem_cons_self
    have hcs : ∀ c ∈ cs, c.WellFormed := fun c h => hwf c (List.mem_cons_of_mem _ h)
    have hstep : c.Whole cut (cs.flatMap Command.bytes).length →
        (Faithful cut methods server (c :: cs) ↔
          Faithful cut methods (execute methods server c) cs) := fun hwhole => by
      rw [Faithful, Faithful, List.flatMap_cons, serve_command hcut hrunning hc _ hwhole,
        Prod.ext_iff, Prod.ext_iff, List.map_cons, List.cons_inj_right]
      rfl
    constructor
    · rintro hfaithful
      have hlog : (serve cut methods server (c.bytes ++ cs.flatMap Command.bytes)).2 =
          { command := some c, consumed := c.bytes.length } ::
            cs.map fun c => { command := some c, consumed := c.bytes.length } := by
        rw [← List.flatMap_cons, hfaithful]
        rfl
      have hwhole := whole_of_serve hcut hc _ hlog
      have hrest := (hstep hwhole).mp hfaithful
      by_cases hstop : c = .stop
      · subst hstop
        have hlog := congrArg Prod.snd hrest
        rw [serve_stopped rfl] at hlog
        obtain rfl := List.map_eq_nil_iff.mp hlog.symm
        exact ⟨hwhole, fun _ => rfl, trivial⟩
      · exact ⟨hwhole, fun h => absurd h hstop,
          (ih ((running_execute hstop server).trans hrunning) hcs).mp hrest⟩
    · rintro ⟨hwhole, hlast, hdelivered⟩
      refine (hstep hwhole).mpr ?_
      by_cases hstop : c = .stop
      · obtain rfl := hlast hstop
        exact serve_nil _
      · exact (ih ((running_execute hstop server).trans hrunning) hcs).mpr hdelivered

/-! ### A write in two pieces -/

/-- A handler that stores nothing. -/
def idleMethods : Methods Unit where
  writeMem _ _ _ _ := ((), none)
  readMem _ _ _ numBytes := ((), .ok (List.replicate numBytes 0))
  shift _ _ _ tdi := ((), tdi)
  setTck _ period := ((), period)
  setConfig _ _ := ()
  capabilities _ := []

/-- A period, a write and a read, with all bytes there from the start. -/
theorem faithful_iff_arrived : Faithful (· + 1) idleMethods { handler := () }
    [.settck 100, .mwr 0 4096 [1, 2, 3, 4], .mrd 0 4096 4] := by
  refine (faithful_iff Nat.succ_pos idleMethods rfl ?_).mpr ?_
  · simp only [List.forall_mem_cons, List.not_mem_nil, false_implies, implies_true, and_true]
    exact ⟨show 100 < 2 ^ 32 by norm_num, trivial, trivial⟩
  · refine ⟨?_, nofun, ⟨List.cons_ne_nil 1 _, ?_⟩, nofun, trivial, nofun, trivial⟩
    · exact (Nat.le_add_right 4 _).trans (Nat.le_succ _)
    · exact (Nat.le_add_right 4 _).trans (Nat.le_succ _)

/-- Of four bytes that arrive one by one the handler gets the first. -/
theorem not_faithful_bytewise : (∀ k : ℕ, 0 < (fun _ => 1) k) ∧
    ¬ Faithful (fun _ => 1) idleMethods { handler := () } [.mwr 0 4096 [1, 2, 3, 4]] := by
  refine ⟨fun _ => Nat.one_pos, fun h => ?_⟩
  have hwf : (Command.mwr 0 4096 [1, 2, 3, 4]).WellFormed := trivial
  have hlog := congrArg Prod.snd h
  rw [List.flatMap_singleton, ← List.append_nil (Command.bytes _)] at hlog
  obtain ⟨-, hcut⟩ := whole_of_serve (fun _ => Nat.one_pos) hwf [] hlog
  exact absurd hcut (by decide)

end Chipscopy.Xvc
