import Famicom.Main
import Famicom.Disassembly
import Famicom.Proofs.Lockstep
import Famicom.Proofs.BlankInterrupt
import Famicom.Proofs.Ppu.Scroll
import Famicom.Proofs.Cpu.Balance
import Famicom.Proofs.Cpu.FaultFree
import Famicom.Proofs.Cpu.Footprint
import Famicom.Proofs.Cpu.Combined
import Famicom.Proofs.Cpu.Flow
import Famicom.Proofs.Cpu.Cost
import Famicom.Proofs.Cpu.EffectiveAddress
import Famicom.Proofs.Text.Hex
import Famicom.Proofs.Disassembly
import Famicom.Proofs.Trace.Wording
import Famicom.Proofs.Trace.Prediction
import Famicom.Proofs.Cpu.Fault
import Famicom.Proofs.FailedStep
import Famicom.Proofs.ColdStart
import Famicom.Proofs.Observation
import Famicom.Proofs.Cartridge
import Famicom.Proofs.Ppu.VideoSpace
import Famicom.Proofs.Ppu.Aliases
import Famicom.Proofs.Ppu.StatusRead
import Famicom.Proofs.Refusal
import Famicom.Proofs.ReadOnly
import Famicom.Proofs.Insertion
import Famicom.Proofs.Store
import Famicom.Proofs.Ram
import Famicom.Proofs.Cpu.Arbitration
import Famicom.Proofs.Strict.Console
import Famicom.Proofs.TransferRequest
import Famicom.Proofs.Transfer
import Famicom.Proofs.FrameRun
import Famicom.Proofs.Ppu.WritePairs
import Famicom.Proofs.Controller
import Famicom.Proofs.Registration
import Famicom.Proofs.Cpu.LongSum
import Famicom.Proofs.Cpu.LongShift
import Famicom.Proofs.Cpu.Compare
import Famicom.Proofs.Ppu.DataPort
import Famicom.Proofs.Ppu.RefusedAccess
import Famicom.Proofs.Ppu.DataLines
import Famicom.Proofs.Listing.Program
import Famicom.Proofs.Listing.Live
import Famicom.Proofs.Listing.Assembly
import Famicom.Proofs.Text.Columns
import Famicom.Proofs.Trace.Layout
import Famicom.Proofs.Trace.Agreement
