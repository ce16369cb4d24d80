/-
The pressure sensor (`components/gzp6816d_driver`).

A reading is six bytes: a status, the pressure in three bytes and the temperature in two,
the high byte first.  `calRawdata` turns the byte order round and applies the two macros
of the header to the numbers it then finds.  A macro is text: `CALC_PRESSURE` does not
put its argument in parentheses, so what is subtracted in it is subtracted from the last
operand of the argument.

Floating point is read as exact arithmetic.
-/
import Mathlib.Data.Rat.Defs
import EleDs.Lib.Words

namespace EleDs

open CMem

/-! ### The constants of `gzp6816d_driver.h` -/

def PMAX : Int := 110
def PMIN : Int := 30
def DMAX : Nat := 15099494
def DMIN : Nat := 1677722
def OFFSET_PRESSURE : Int := 20
def MAX_16BITS_UNSIGNED : Nat := 65536
def TEMP_MIN : Int := -40
def TEMP_MAX : Int := 150
def GZP6816D_PRESSURE_VALUE_MASK : Nat := 0x00FFFFFF

/-! ### `cal_rawdata` -/

/-- One turn of the loop of `reverse_bytes`. -/
def swapBytes (data : Bytes) (i j : Nat) : Bytes := (data.set i (data.getD j 0)).set j (data.getD i 0)

/-- The loop, for a bounded number of turns. -/
def reverseLoop : Nat → Nat → Nat → Bytes → Bytes
  | 0, _, _, data => data
  | fuel + 1, i, j, data =>
      if i < j then reverseLoop fuel (i + 1) (j - 1) (swapBytes data i j) else data

/-- `reverse_bytes`, on at least one byte. -/
def reverseBytes (data : Bytes) : Bytes := reverseLoop data.length 0 (data.length - 1) data

/-- `CALC_PRESSURE(value & mask)`: the minus binds before the `&`. -/
def calcPressure (value mask : Nat) : ℚ :=
  (PMAX - PMIN : Int) / (DMAX - DMIN : Nat) * (value &&& (mask - DMIN) : Nat) + OFFSET_PRESSURE

/-- `CALC_TEMPERATURE`. -/
def calcTemperature (hexValue : Nat) : ℚ :=
  (TEMP_MAX - TEMP_MIN : Int) * ((hexValue : ℚ) / MAX_16BITS_UNSIGNED * 100) / 100 + TEMP_MIN

/-- `gzp6816d_data_t`, with the two unions as the numbers they hold. -/
structure Gzp6816dData where
  rawPressure : Nat
  pressure : ℚ
  rawTemperature : Nat
  temperature : ℚ

/-- `cal_rawdata`. -/
def calRawdata (buf : Buf 6) : Gzp6816dData :=
  let rawPressure := littleEndian (reverseBytes (buf.data.take 4))
  let rawTemperature := littleEndian (reverseBytes ((buf.data.drop 4).take 2))
  { rawPressure
    pressure := calcPressure rawPressure GZP6816D_PRESSURE_VALUE_MASK
    rawTemperature
    temperature := calcTemperature rawTemperature }

/-- `pressure_calculation` of `res/tool/cal_gzp6816_pressure_temp.py`. -/
def pressureCalculation (adValue adMin adMax pressureMin pressureMax : ℚ) : ℚ :=
  (pressureMax - pressureMin) / (adMax - adMin) * (adValue - adMin) + 20

end EleDs
