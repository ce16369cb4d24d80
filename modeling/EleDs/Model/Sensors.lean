/-
Polling the sensors (`applications/ele_ds/ele_ds.c`), down to the driver of the pressure
sensor.

A poll sends the sensor a command, waits and reads a frame of six bytes.  What the bus
makes of it is not the program's choice: a `Poll` holds the answers of all calls of one
poll.  The sensor framework has neither a module nor a queue for this sensor, so a read
of the device is a call of `gzp6816d_fetch_data`.
-/
import EleDs.Model.Gzp6816d

namespace EleDs

open CMem

def RT_EOK : Int := 0
def RT_ERROR : Int := 255
def RT_EBUSY : Int := 16
def EBUSY : Int := 16

/-- `sizeof(gzp6816d_data_t)`, packed. -/
def gzp6816dDataSize : Nat := 14

/-- What the calls of one poll come back with. -/
structure Poll where
  /-- `rt_device_find("baro_gzp6816d")` finds the sensor. -/
  found : Bool
  /-- `rt_device_open` opens it. -/
  opens : Bool
  /-- The result of `rt_i2c_transfer` for the command. -/
  transfer : Int
  /-- `rt_i2c_bus_device_find("i2c1")` finds the bus. -/
  bus : Bool
  /-- The result of `rt_i2c_master_recv`. -/
  recv : Int
  /-- The buffer after it. -/
  frame : Buf 6
  /-- Temperature and humidity of the other sensor, if it answers. -/
  sht30 : Option (Int × Int)

/-! ### The driver -/

/-- `write_cmd`. -/
def writeCmd (p : Poll) : Int := if p.transfer = 1 then RT_EOK else -RT_ERROR

/-- `read_bytes`, of six bytes. -/
def readBytes (p : Poll) (buf : Buf 6) : Int × Buf 6 :=
  if p.bus then
    if p.recv = 6 then (RT_EOK, p.frame) else (-RT_ERROR, p.frame)
  else (-RT_ERROR, buf)

/-- The bit of the status that says that there is no result yet. -/
def busy (buf : Buf 6) : Bool := buf.data.getD 0 0 &&& 0x20 != 0

/-- `gzp6816d_readsls`. -/
def gzp6816dReadsls (p : Poll) (buf : Buf 6) : Int × Buf 6 :=
  if writeCmd p = RT_EOK then
    let (err, buf) := readBytes p buf
    if err ≠ RT_EOK then (-RT_ERROR, buf)
    else if busy buf then (-RT_EBUSY, buf)
    else (RT_EOK, buf)
  else (RT_EOK, buf)

/-- `gzp6816d_fetch_data`. -/
def gzp6816dFetchData (p : Poll) (buf : Gzp6816dData) (len : Nat) : Int × Gzp6816dData :=
  if len < gzp6816dDataSize then (-RT_ERROR, buf)
  else
    let (ret, readbuf) := gzp6816dReadsls p (Buf.zero 6)
    if ret = RT_EOK then (gzp6816dDataSize, calRawdata readbuf) else (ret, buf)

/-! ### The application -/

/-- `get_gzp6816d_data`. -/
def getGzp6816dData (p : Poll) (data : Gzp6816dData) : Int × Gzp6816dData :=
  if !p.found then (-RT_ERROR, data)
  else if !p.opens then (-RT_ERROR, data)
  else
    let (ret, data) := gzp6816dFetchData p data gzp6816dDataSize
    if ret > 0 then (RT_EOK, data) else (ret, data)

/-- What `get_all_sensor_data` reads and writes of `struct ele_ds`. -/
structure SensorState where
  initFlag : Bool
  gzp6816d : Gzp6816dData
  sht30 : Int × Int

/-- `get_all_sensor_data`. -/
def getAllSensorData (s : SensorState) (p : Poll) : Int × SensorState :=
  if s.initFlag = false then (-EBUSY, s)
  else
    let s := { s with gzp6816d := (getGzp6816dData p s.gzp6816d).2 }
    let s := match p.sht30 with
      | none => s
      | some values => { s with sht30 := values }
    (RT_EOK, s)

/-- One poll after the other. -/
def polled (s : SensorState) (polls : List Poll) : SensorState :=
  polls.foldl (fun s p => (getAllSensorData s p).2) s

end EleDs
