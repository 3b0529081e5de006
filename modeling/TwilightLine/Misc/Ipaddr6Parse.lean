import TwilightLine.Misc.Ipaddr6Quad
import TwilightLine.Misc.Ipaddr6Steps

/-! What is parsed as an IPv6 address.

What is accepted is a text form (`parse_sound`), since the text before the position always is
the beginning of one; and from one to the next the parser goes through each text form to its end
(`parse_complete`). The groups are not limited to four digits, but to what fits into a block. -/
namespace TwilightLine.Ipaddr6

open Lib

variable {m₀ : Memory} {s : Parse} {front : Option (List UInt8)} {name rear g p t u f d before rest : List UInt8} {v : UInt16} {c : UInt8}

theorem blocksLoop_dot : blocksLoop s before false (46 :: rest) = ipv4Ending s before (46 :: rest) := rfl

theorem blocksLoop_colon (h : rest.head? ≠ some 58) :
    blocksLoop s before false (58 :: rest) =
      continueWith (colon s before.length false) fun s => blocksLoop s (58 :: before) false rest := by
  have hsingle : decide (rest.head? = some 58) = false := decide_eq_false h
  rw [blocksLoop, if_neg nofun, if_neg (by decide), if_pos rfl]
  dsimp only
  rw [hsingle]

theorem blocksLoop_double :
    blocksLoop s before false (58 :: 58 :: rest) =
      continueWith (colon s before.length true) fun s => blocksLoop s (58 :: 58 :: before) false rest := rfl

theorem blocksLoop_digit (hdot : c ≠ 46) (hcolon : c ≠ 58) :
    blocksLoop s before false (c :: rest) = continueWith (hexDigit s c) fun s => blocksLoop s (c :: before) false rest := by
  rw [blocksLoop, if_neg nofun, if_neg hdot, if_neg hcolon]

/-! ### What is accepted -/

/-- The text up to a `::`, and the bytes that it denotes, or nothing. -/
inductive Opening : List UInt8 → Option (List UInt8) → Prop where
  | start : Opening [] none
  | compress {u f : List UInt8} : MaybeGroups HexGroup false u f → Opening (u ++ [58, 58]) (some f)

/-- Success is only for a text form, or for one with a `::` too many. -/
def Accepted (name : List UInt8) (ok : Bool) (bs : List UInt8) : Prop :=
  ok = true → TextForm HexGroup name bs ∨ Overfull HexGroup name

theorem ends_error {m : Memory} (h : ∀ i, i < 0 ∨ 16 ≤ i → m i = m₀ i) : Ends m₀ (some (m, false)) (Accepted name) :=
  ⟨m, false, rfl, h, nofun⟩

/-- The blocks are complete. -/
theorem Opening.done (hp : Opening p front) (h : Reached m₀ s front rear g) (hlen : (front.getD [] ++ rear).length ≤ 16)
    (hlast : Groups HexGroup true t rear ∨ front ≠ none ∧ t = [] ∧ rear = []) : Ends m₀ (ipv4Done s) (Accepted (p ++ t)) := by
  cases hp with
  | start =>
    rcases hlast with hlast | ⟨hnone, -⟩
    · by_cases hfull : rear.length = 16
      · obtain ⟨m, hdone, hframe, hbytes⟩ := h.done hlen fun _ => hfull
        refine ⟨m, true, hdone, hframe, fun _ => .inl ?_⟩
        rw [hbytes, hfull]
        exact .full hlast hfull
      · rw [h.done_none hfull]
        exact ends_error h.frame
    · exact absurd rfl hnone
  | @compress u f hfront =>
    obtain ⟨m, hdone, hframe, hbytes⟩ := h.done hlen nofun
    have hrear : MaybeGroups HexGroup true t rear := hlast.elim .inr fun h => .inl h.2
    rw [Option.getD_some, List.length_append] at hlen
    rw [List.append_assoc]
    refine ⟨m, true, hdone, hframe, fun _ => ?_⟩
    rw [hbytes]
    rcases Nat.lt_or_ge (f.length + rear.length) 16 with hlt | hge
    · exact .inl (.compressed hfront hrear hlt)
    · exact .inr ⟨u, f, t, rear, rfl, hfront, hrear, by omega⟩

theorem blocksEnd_sound (h : Reached m₀ s front rear g) (hp : Opening p front) (ht : Terminated (GroupBytes HexGroup) 58 t rear)
    (hlen : (front.getD [] ++ rear).length ≤ 14) : Ends m₀ (blocksEnd s) (Accepted (p ++ t ++ g)) := by
  rw [blocksEnd]
  by_cases hg : s.empty = false
  · rw [if_pos (by rw [hg]; rfl), List.append_assoc]
    refine hp.done (h.store hlen) ?_ (.inl (.mk ht (.inl ⟨_, h.group hg, rfl⟩)))
    rw [← List.append_assoc, List.length_append, blockBytes_length]
    omega
  · rw [Bool.not_eq_false] at hg
    have hnil : g = [] := List.isEmpty_iff.mp (h.empty.symm.trans hg)
    rw [if_neg (by rw [hg]; exact Bool.false_ne_true), hnil, List.append_nil]
    by_cases hpos : s.numBlocks ≠ s.compressPos
    · rw [if_pos hpos]
      exact ends_error h.frame
    -- the text ends with the colons, or is nothing
    rw [if_neg hpos, not_not] at *
    have hnum := h.numBlocks
    cases front with
    | none =>
      have := h.compressPos_eq.mpr rfl
      omega
    | some f =>
      have hcompress := h.compressPos
      rw [Option.getD_some, List.length_append] at hnum
      rw [Option.elim_some] at hcompress
      obtain rfl : rear = [] := List.length_eq_zero_iff.mp (by omega)
      exact hp.done h (Nat.le_trans hlen (by decide)) (.inr ⟨nofun, terminated_nil ht, rfl⟩)

/-- Before the last group there is a colon, unless that is the first one. -/
theorem Opening.ends (hp : Opening p front) (h : Reached m₀ s front rear g) (ht : Terminated (GroupBytes HexGroup) 58 t rear)
    (hnot : ¬(s.numBlocks = 0 ∧ s.compressPos = -1)) : ∃ b, p ++ t = b ++ [58] := by
  rcases ht.nil_or_ends with ⟨rfl, rfl⟩ | ⟨b, rfl⟩
  · cases hp with
    | start =>
      have hnum := h.numBlocks
      rw [Option.getD_none, List.append_nil, List.length_nil] at hnum
      exact absurd ⟨by omega, h.compressPos_eq.mpr rfl⟩ hnot
    | @compress u => exact ⟨u ++ [58], by simp⟩
  · exact ⟨p ++ b, (List.append_assoc ..).symm⟩

theorem ipv4Ending_sound (h : Reached m₀ s front rear g) (hp : Opening p front) (ht : Terminated (GroupBytes HexGroup) 58 t rear)
    (hbefore : before.reverse = p ++ t ++ g) : Ends m₀ (ipv4Ending s before (46 :: rest)) (Accepted (p ++ t ++ g ++ 46 :: rest)) := by
  rw [ipv4Ending]
  by_cases hbad : s.empty ∨ s.numBlocks = 0 ∧ s.compressPos = -1
  · rw [if_pos hbad]
    exact ends_error h.frame
  rw [if_neg hbad]
  obtain ⟨b, hb⟩ := hp.ends h ht fun hstart => hbad (.inr hstart)
  have hback : before = g.reverse ++ 58 :: b.reverse := by
    rw [← List.reverse_reverse before, hbefore, hb]
    simp
  rw [hback, backUp_eq h.block.no_colon, Option.bind_some]
  rcases ipv4Loop_start_cases s (g ++ 46 :: rest) with herror | ⟨bs, hquad, hroom, hdone⟩
  · rw [herror]
    exact ends_error h.frame
  · rw [hdone, List.append_assoc p, List.append_assoc p, List.append_assoc t]
    have hnum := h.numBlocks
    have hsum : (front.getD [] ++ rear).length + bs.length ≤ 16 := by
      rw [hquad.length]
      omega
    refine hp.done (h.write (by rw [hquad.length]; rfl) hsum) ?_ (.inl (.mk ht (.inr ⟨rfl, hquad⟩)))
    rwa [← List.append_assoc, List.length_append]

/-- From each state the text before the position goes with, what is accepted is a text form. -/
theorem blocksLoop_sound (h : Reached m₀ s front rear g) (hp : Opening p front) (ht : Terminated (GroupBytes HexGroup) 58 t rear)
    (hlen : (front.getD [] ++ rear).length ≤ 14) (hbefore : before.reverse = p ++ t ++ g) :
    Ends m₀ (blocksLoop s before false rest) (Accepted (p ++ t ++ g ++ rest)) := by
  -- by the length of the text, as two colons are one step
  induction hn : rest.length using Nat.strong_induction_on generalizing s front rear g p t before rest with
  | _ n ih =>
    subst hn
    cases rest with
    | nil =>
      rw [List.append_nil]
      exact blocksEnd_sound h hp ht hlen
    | cons c rest =>
      by_cases hdot : c = 46
      · subst hdot
        exact ipv4Ending_sound h hp ht hbefore
      by_cases hcolon : c = 58
      · subst hcolon
        by_cases hdouble : rest.head? = some 58
        · obtain ⟨rest, rfl⟩ : ∃ r, rest = 58 :: r := ⟨rest.tail, (List.cons_head?_tail hdouble).symm⟩
          have hshorter : rest.length < (58 :: 58 :: rest).length := by
            rw [List.length_cons, List.length_cons]
            omega
          rw [blocksLoop_double]
          rcases colon_double_cases h hlen before.length with
            ⟨m, herror, hframe⟩ | ⟨rfl, ⟨hstart, s', hok, h'⟩ | ⟨hi, hg, hlen', s', hok, h'⟩⟩
          · rw [herror]
            exact ends_error hframe
          · -- the text begins with the colons
            cases hp
            obtain rfl := List.length_eq_zero_iff.mp hstart
            obtain ⟨rfl, rfl⟩ := List.append_eq_nil_iff.mp (hbefore.symm : t ++ g = [])
            rcases ht.nil_or_ends with ⟨-, rfl⟩ | ⟨u, hu⟩
            · have hempty : MaybeGroups HexGroup false [] [] := .inl ⟨rfl, rfl⟩
              rw [hok]
              exact ih rest.length hshorter h' (.compress hempty) .nil (Nat.zero_le 14) rfl rfl
            · cases u <;> cases hu
          · -- what is before them are groups
            cases hp
            have hgroups : MaybeGroups HexGroup false (t ++ g) (rear ++ blockBytes s.block) := .inr (.mk ht (.inl ⟨_, hg, rfl⟩))
            have hnext := ih rest.length hshorter h' (.compress hgroups) .nil (by rwa [Option.getD_some, List.append_nil])
              (by rw [List.reverse_cons, List.reverse_cons, hbefore, List.append_assoc, List.append_nil, List.append_nil]; rfl) rfl
            rw [hok]
            rwa [List.append_nil, List.append_nil, List.append_assoc _ [58, 58]] at hnext
        · rw [blocksLoop_colon hdouble]
          rcases colon_cases h hlen before.length with herror | ⟨-, hg, hlen', s', hok, h'⟩
          · rw [herror]
            exact ends_error h.frame
          · have hnext := ih rest.length (Nat.lt_succ_self _) h' hp (ht.concat ⟨_, hg, rfl⟩) hlen'
              (by rw [List.reverse_cons, hbefore, List.append_nil, ← List.append_assoc, ← List.append_assoc]) rfl
            rw [hok]
            rwa [List.append_nil, ← List.append_assoc, ← List.append_assoc, List.append_assoc _ [58]] at hnext
      · rw [blocksLoop_digit hdot hcolon]
        rcases hexDigit_cases s c with herror | ⟨d, v, hc, hv, hok⟩
        · rw [herror]
          exact ends_error h.frame
        · rw [hok]
          have hnext := ih rest.length (Nat.lt_succ_self _) (h.digit hc hv) hp ht hlen
            (by rw [List.reverse_cons, hbefore, List.append_assoc]) rfl
          rwa [← List.append_assoc, List.append_assoc _ [c], List.singleton_append] at hnext

/-- **The parser ends, writes only the address, and accepts only text forms**, except for a `::` too many. -/
theorem parse_sound (name : List UInt8) (m : Memory) : Ends m (parseIpv6Addr name m) (Accepted name) :=
  blocksLoop_sound (reached_start m) .start .nil (Nat.zero_le 14) rfl

/-! ### Through a text form -/

/-- Digits go to the block while it does not become too large. -/
theorem blocksLoop_digits (hg : ∀ c ∈ g, (decodeHexDigit c).isSome) (hne : g ≠ [])
    (hv : Numeral.valueFrom 16 (fun c => (decodeHexDigit c).getD 0) s.block.toNat g = v.toNat) :
    blocksLoop s before false (g ++ rest) = blocksLoop {s with block := v, empty := false} (g.reverse ++ before) false rest := by
  induction g generalizing s before with
  | nil => exact absurd rfl hne
  | cons c g ih =>
    obtain ⟨hc, hg⟩ := List.forall_mem_cons.mp hg
    obtain ⟨hdot, hcolon⟩ := ne_of_hexDigit hc
    obtain ⟨d, hd⟩ := Option.isSome_iff_exists.mp hc
    rw [Numeral.valueFrom_cons, hd, Option.getD_some] at hv
    have hfit : (UInt16.ofNat (16 * s.block.toNat + d)).toNat = 16 * s.block.toNat + d := by
      have hle := hv ▸ Numeral.le_valueFrom (by decide) (16 * s.block.toNat + d) g
      rw [UInt16.toNat_ofNat']
      exact Nat.mod_eq_of_lt (Nat.lt_of_le_of_lt hle v.toNat_lt)
    rw [List.cons_append, blocksLoop_digit hdot hcolon, hexDigit_ok hd hfit.symm, continueWith]
    cases g with
    | nil => rw [UInt16.toNat_inj.mp (hfit.trans hv)]; rfl
    | cons x g =>
      have hreverse : (c :: x :: g).reverse = (x :: g).reverse ++ [c] := List.reverse_cons
      rw [ih hg nofun (by rw [hfit]; exact hv), hreverse, List.append_assoc, List.singleton_append]

theorem Reached.run_group (h : Reached m₀ s front rear []) (hg : HexGroup g v) :
    Reached m₀ {s with block := v, empty := false} front rear g ∧ ∀ before rest, blocksLoop s before false (g ++ rest) =
      blocksLoop {s with block := v, empty := false} (g.reverse ++ before) false rest := by
  refine ⟨⟨h.bytes, h.frame, h.numBlocks, h.compressPos, hg.toHexDigits, ?_⟩, fun before rest => ?_⟩
  · exact (List.isEmpty_eq_false_iff.mpr hg.ne_nil).symm
  · have hzero : s.block.toNat = 0 := h.block.value.symm
    exact blocksLoop_digits hg.digits hg.ne_nil (by rw [hzero]; exact hg.value)

/-- Groups with a colon after each are read and written. -/
theorem Reached.run_terminated {ys : List UInt8} (h : Reached m₀ s front rear []) (ht : Terminated (GroupBytes HexGroup) 58 t ys)
    (hlen : (front.getD [] ++ (rear ++ ys)).length ≤ 14) (hrest : rest.head? ≠ some 58) (before : List UInt8) :
    ∃ s', Reached m₀ s' front (rear ++ ys) [] ∧
      blocksLoop s before false (t ++ rest) = blocksLoop s' (t.reverse ++ before) false rest := by
  induction ht generalizing s rear before with
  | nil => exact ⟨s, by rwa [List.append_nil], rfl⟩
  | @cons g xs t ys hitem ht ih =>
    obtain ⟨v, hg, rfl⟩ := hitem
    obtain ⟨hgroup, hrun⟩ := h.run_group hg
    have hnum := h.numBlocks
    rw [List.length_append, List.length_append, List.length_append, blockBytes_length] at hlen
    rw [List.length_append] at hnum
    have hstore := (hgroup.store (by rw [List.length_append]; omega)).clear
    obtain ⟨s', hs', hrun'⟩ := ih hstore (by
      rw [List.length_append, List.length_append, List.length_append, blockBytes_length]; omega) (58 :: (g.reverse ++ before))
    refine ⟨s', by rwa [List.append_assoc] at hs', ?_⟩
    have hpos : 0 < (g.reverse ++ before).length := by
      rw [List.length_append, List.length_reverse]
      exact Nat.add_pos_left (List.length_pos_of_ne_nil hg.ne_nil) _
    rw [List.append_assoc, List.cons_append, hrun, blocksLoop_colon (head?_terminated ht hrest),
      colon_ok hpos rfl (by show s.numBlocks ≠ 7; omega), continueWith, hrun', List.reverse_append, List.reverse_cons,
      List.append_assoc, List.append_assoc, List.singleton_append]

/-- Groups are read up to the first `::`. -/
theorem run_compress (hu : MaybeGroups HexGroup false u f) (hlen : f.length ≤ 14) (m : Memory) (rest : List UInt8) :
    ∃ s', Reached m s' (some f) [] [] ∧
      parseIpv6Addr (u ++ 58 :: 58 :: rest) m = blocksLoop s' (58 :: 58 :: u.reverse) false rest := by
  have hstart := reached_start m
  rcases hu with ⟨rfl, rfl⟩ | @⟨t, ys, g, _, ht, hlast | ⟨hquad, -⟩⟩
  · exact ⟨_, hstart.mark rfl, rfl⟩
  · obtain ⟨v, hg, rfl⟩ := hlast
    rw [List.length_append, blockBytes_length] at hlen
    obtain ⟨s', hs', hrun⟩ := hstart.run_terminated ht (by rw [Option.getD_none, List.nil_append, List.nil_append]; omega)
      (hg.head?_ne (58 :: 58 :: rest)) []
    obtain ⟨hgroup, hrun'⟩ := hs'.run_group hg
    have hnum := hs'.numBlocks
    rw [Option.getD_none, List.nil_append, List.nil_append] at hnum
    have hpos : 0 < (g.reverse ++ (t.reverse ++ [])).length := by
      rw [List.length_append, List.length_reverse]
      exact Nat.add_pos_left (List.length_pos_of_ne_nil hg.ne_nil) _
    have hstore := (hgroup.store (by rw [Option.getD_none, List.nil_append, List.nil_append]; omega)).clear.mark rfl
    refine ⟨_, hstore, ?_⟩
    rw [List.append_assoc, parseIpv6Addr, hrun, hrun', blocksLoop_double,
      colon_double_ok hpos rfl (by show s'.numBlocks ≠ 7; omega) (hgroup.compressPos_eq.mpr rfl), continueWith, List.append_nil,
      List.reverse_append]
    rfl
  · cases hquad

/-- A dotted quad is read from the first dot on, and written. -/
theorem Reached.run_quad {bs : List UInt8} (h : Reached m₀ s front rear []) (hq : Quad p bs)
    (hlen : (front.getD [] ++ (rear ++ bs)).length ≤ 16) (hbegun : ¬(s.numBlocks = 0 ∧ s.compressPos = -1)) (b : List UInt8) :
    ∃ s' g, Reached m₀ s' front (rear ++ bs) g ∧ blocksLoop s (58 :: b) false p = ipv4Done s' := by
  have hquad := hq
  have htwo : 2 * (2 : Int) = bs.length := by rw [hq.length]; rfl
  obtain ⟨⟨hterm, last, -, rfl⟩, hfour⟩ := hq
  rw [← List.append_assoc, List.length_append] at hlen
  have hnum := h.numBlocks
  cases hterm with
  | nil => cases hfour
  | cons hitem _ =>
    obtain ⟨byte, hoctet, rfl⟩ := hitem
    obtain ⟨v, hg⟩ := hoctet.hexGroup
    obtain ⟨hgroup, hrun⟩ := h.run_group hg
    refine ⟨_, _, hgroup.write htwo hlen, ?_⟩
    rw [List.append_assoc, List.cons_append] at hquad ⊢
    have hnot : ¬((false : Bool) ∨ s.numBlocks = 0 ∧ s.compressPos = -1) := fun h => hbegun (h.resolve_left nofun)
    rw [hrun, blocksLoop_dot, ipv4Ending, if_neg hnot, backUp_eq hg.no_colon, Option.bind_some]
    exact ipv4Loop_quad hquad (by show s.numBlocks ≤ 6; omega)

/-- The groups after a `::`, or all of them, are read to the end. -/
theorem Reached.run_groups {bs : List UInt8} (h : Reached m₀ s front [] []) (ht : Groups HexGroup true t bs)
    (hlen : (front.getD [] ++ bs).length ≤ 16) (before : List UInt8) (hbegun : before.head? = some 58 ∧ front ≠ none ∨ 4 < bs.length) :
    ∃ s' g, Reached m₀ s' front bs g ∧ blocksLoop s before false t = ipv4Done s' := by
  obtain @⟨t, ys, last, xs, hterm, hlast⟩ := ht
  rw [List.length_append, List.length_append] at hlen
  rcases hlast with ⟨v, hg, rfl⟩ | ⟨-, hq⟩
  · rw [blockBytes_length] at hlen
    have hhead : (last ++ []).head? ≠ some 58 := hg.head?_ne []
    rw [List.append_nil] at hhead
    obtain ⟨s', hs', hrun⟩ := h.run_terminated hterm (by rw [List.length_append, List.nil_append]; omega) hhead before
    obtain ⟨hgroup, hrun'⟩ := hs'.run_group hg
    refine ⟨_, last, hgroup.store (by rw [List.length_append, List.nil_append]; omega), ?_⟩
    rw [hrun, ← List.append_nil last, hrun']
    rfl
  · rw [hq.length] at hlen
    rw [List.length_append, hq.length] at hbegun
    obtain ⟨s', hs', hrun⟩ := h.run_terminated hterm (by rw [List.length_append, List.nil_append]; omega) hq.head?_ne before
    -- a colon is the last that was read
    obtain ⟨b, hb⟩ : ∃ b, t.reverse ++ before = 58 :: b := by
      rcases hterm.nil_or_ends with ⟨rfl, rfl⟩ | ⟨u, rfl⟩
      · rcases hbegun with ⟨hcolon, -⟩ | hlong
        · exact ⟨before.tail, (List.cons_head?_tail hcolon).symm⟩
        · exact absurd hlong (lt_irrefl 4)
      · exact ⟨u.reverse ++ before, by rw [List.reverse_append]; rfl⟩
    rw [hrun, hb]
    refine hs'.run_quad hq ?_ ?_ b
    · rw [List.length_append, List.length_append, List.nil_append, hq.length]
      omega
    · rintro ⟨hnum, hpos⟩
      obtain rfl := hs'.compressPos_eq.mp hpos
      have hbytes := hs'.numBlocks
      rw [Option.getD_none, List.nil_append, List.nil_append] at hbytes
      rcases hbegun with ⟨-, hnone⟩ | hlong
      · exact hnone rfl
      · omega

/-- **Each text form is parsed as the address that it denotes.** -/
theorem parse_complete {bs : List UInt8} (h : TextForm HexGroup name bs) (m : Memory) :
    ∃ m', parseIpv6Addr name m = some (m', true) ∧ readBytes m' 0 16 = bs := by
  cases h with
  | full hgroups hlen =>
    obtain ⟨s', g, hs', hrun⟩ := (reached_start m).run_groups hgroups hlen.le [] (.inr (by omega))
    obtain ⟨m', hdone, -, hbytes⟩ := hs'.done hlen.le fun _ => hlen
    refine ⟨m', hrun.trans hdone, ?_⟩
    rw [hbytes, hlen]
    rfl
  | @compressed u f t rear hfront hrear hlen =>
    have heven := maybeGroups_length hfront
    obtain ⟨s, hs, hcompress⟩ := run_compress hfront (by omega) m t
    have hsum : ((some f).getD [] ++ rear).length ≤ 16 := by
      rw [Option.getD_some, List.length_append]
      exact hlen.le
    have hend : ∃ s' g, Reached m s' (some f) rear g ∧ blocksLoop s (58 :: 58 :: u.reverse) false t = ipv4Done s' := by
      rcases hrear with ⟨rfl, rfl⟩ | hgroups
      · have hnum := hs.numBlocks
        have hpos := hs.compressPos
        rw [Option.getD_some, List.append_nil] at hnum
        rw [Option.elim_some] at hpos
        refine ⟨s, [], hs, ?_⟩
        rw [blocksLoop, blocksEnd, if_neg (by rw [hs.empty]; decide), if_neg (by omega)]
      · exact hs.run_groups hgroups hsum _ (.inl ⟨rfl, nofun⟩)
    obtain ⟨s', g, hs', hrun⟩ := hend
    obtain ⟨m', hdone, -, hbytes⟩ := hs'.done hsum nofun
    exact ⟨m', hcompress.trans (hrun.trans hdone), hbytes⟩

/-- **Each text form is parsed as the address that it denotes, and nothing else is, except for a `::` among groups that are
an address without it.** A group has any number of leading zeros. Only the address is written. -/
theorem parse_ipv6_addr (name : List UInt8) (m : Memory) :
    ∃ m' ok, parseIpv6Addr name m = some (m', ok) ∧ (∀ i, i < 0 ∨ 16 ≤ i → m' i = m i) ∧
      (∀ bs, TextForm HexGroup name bs → ok = true ∧ readBytes m' 0 16 = bs) ∧
      (ok = true → TextForm HexGroup name (readBytes m' 0 16) ∨ Overfull HexGroup name) := by
  obtain ⟨m', ok, hparse, hframe, hsound⟩ := parse_sound name m
  refine ⟨m', ok, hparse, hframe, fun bs hform => ?_, hsound⟩
  obtain ⟨m'', hcomplete, hbytes⟩ := parse_complete hform m
  rw [hparse] at hcomplete
  cases hcomplete
  exact ⟨rfl, hbytes⟩

/-- In RFC 4291 there are at most four digits, as in `00000::` there are not, and there is a group for the `::`, as there is not
in `::1:2:3:4:5:6:7:8`. -/
theorem parse_ipv6_addr_beyond_rfc :
    ((parseIpv6Addr [48, 48, 48, 48, 48, 58, 58] fun _ => 0).map Prod.snd = some true ∧
        ¬∃ bs, TextForm RfcGroup [48, 48, 48, 48, 48, 58, 58] bs) ∧
      (parseIpv6Addr [58, 58, 49, 58, 50, 58, 51, 58, 52, 58, 53, 58, 54, 58, 55, 58, 56] fun _ => 0).map Prod.snd = some true ∧
        ¬∃ bs, TextForm RfcGroup [58, 58, 49, 58, 50, 58, 51, 58, 52, 58, 53, 58, 54, 58, 55, 58, 56] bs := by
  have hrfc : ∀ {s v}, RfcGroup s v → HexGroup s v := RfcGroup.toHexGroup
  refine ⟨⟨by decide, ?_⟩, by decide, ?_⟩
  · rintro ⟨bs, hform⟩
    generalize hname : ([48, 48, 48, 48, 48, 58, 58] : List UInt8) = name at hform
    have hfive : ∀ v, ¬RfcGroup [48, 48, 48, 48, 48] v := fun v hg => absurd hg.length_le (by decide)
    have hzeros : (58 : UInt8) ∉ ([48, 48, 48, 48, 48] : List UInt8) := by decide
    cases hform with
    | full hgroups _ =>
      obtain ⟨v, hg⟩ := groups_first hrfc hgroups (.inl rfl) ((List.append_nil _).trans hname.symm) hzeros
      exact hfive v hg
    | compressed hfront _ _ =>
      rcases maybeGroups_first hrfc hfront hname.symm hzeros with ⟨hnil, -⟩ | ⟨v, hg⟩
      · cases hnil
      · exact hfive v hg
  · rintro ⟨bs, hform⟩
    generalize hname : ([58, 58, 49, 58, 50, 58, 51, 58, 52, 58, 53, 58, 54, 58, 55, 58, 56] : List UInt8) = name at hform
    have hempty : ∀ v, ¬RfcGroup [] v := fun v hg => hg.ne_nil rfl
    cases hform with
    | full hgroups _ =>
      obtain ⟨v, hg⟩ := groups_first hrfc hgroups (.inl rfl) ((List.append_nil _).trans hname.symm) List.not_mem_nil
      exact hempty v hg
    | compressed hfront hrear hlen =>
      rcases maybeGroups_first hrfc hfront hname.symm List.not_mem_nil with ⟨-, rfl⟩ | ⟨v, hg⟩
      · -- the text after the colons has seven of them
        cases hname
        rcases hrear with ⟨hnil, -⟩ | hgroups
        · cases hnil
        · have hcount := groups_count hrfc hgroups
          rw [show List.count (58 : UInt8) _ = 7 from rfl] at hcount
          omega
      · exact hempty v hg

end TwilightLine.Ipaddr6
